import ConsumerGroup.TokenPool.Clients
import ConsumerGroup.Proofs.TokenPool.Line

/-!
# Moves of the clients of a pool

A task that uses a pool runs until it has to wait, and goes on when it is its turn.  A *move* is what one
task does in between; which of the tasks that can go on does so next, and when, is left open.

* `PoolClients.Move`, `perform`, `run` — what can happen, and what it comes to.
* `Turn`, `perform_cases` — all that a move can do.
* `performAll`, `foldl_performAll_eq_run` — what happens with everybody looking at once who can go on is a
  run of moves, too.
-/

namespace ConsumerGroup.PoolClients

/-- What a client does, or what happens to it. -/
inductive Move where
  /-- it takes a token if one is free -/
  | tryAcquire (id : String)
  /-- it asks for a token and waits for it -/
  | acquire (id : String)
  /-- it asks for all tokens and waits for them so many milliseconds -/
  | drain (id : String) (millis : Nat)
  /-- it looks at its request -/
  | look (id : String)
  /-- it gives its token back, withdraws its request, or is forgotten -/
  | leave (id : String)
  /-- so many milliseconds pass -/
  | wait (millis : Nat)
  deriving Repr, DecidableEq

/-- Who calls on the pool. -/
def Move.call? : Move → Option String
  | .tryAcquire id | .acquire id | .drain id _ => some id
  | _ => none

/-- Who calls on the pool, in that order. -/
def calls (moves : List Move) : List String := moves.filterMap Move.call?

/-- What a move comes to, before anybody else looks. -/
def perform (s : PoolClients) : Move → PoolClients
  | .tryAcquire id =>
    match s.pool.tryAcquire? id with
    | some pool => { s with pool }.setStatus id .held
    | none => s
  | .acquire id =>
    match s.pool.request id 1 with
    | (.served, pool) => { s with pool := pool.hold id }.setStatus id .held
    | (.waiting, pool) => { s with pool }.setStatus id .acquiring
    | (.closed, pool) => { s with pool }.setStatus id .refused
  | .drain id millis =>
    match s.pool.request id s.pool.drainSize with
    | (.served, pool) => { s with pool := pool.finishDrain }.setStatus id .drained
    | (.waiting, pool) => { s with pool }.setStatus id (.draining (s.now + millis))
    | (.closed, pool) => { s with pool }.setStatus id .timedOut
  | .look id => ((s.status? id).bind (s.look? id)).getD s
  | .leave id =>
    match s.status? id with
    | none => s
    | some status =>
      let pool :=
        match status with
        | .held => s.pool.release id
        | .acquiring | .draining _ => s.pool.cancel id
        | _ => s.pool
      { s with pool, clients := s.clients.filter (·.1 ≠ id) }
  | .wait millis => { s with now := s.now + millis }

/-- What moves come to, one after the other. -/
def run (s : PoolClients) (moves : List Move) : PoolClients := moves.foldl perform s

/-- A pool that nobody has used. -/
def start (capacity : Nat) : PoolClients := { pool := .ofCapacity capacity }

variable {s s' : PoolClients} {id other : String} {status : Option ClientStatus} {m : Move}

theorem run_cons (s : PoolClients) (m : Move) (moves : List Move) :
    s.run (m :: moves) = (s.perform m).run moves := rfl

theorem run_append (s : PoolClients) (moves moves' : List Move) :
    s.run (moves ++ moves') = (s.run moves).run moves' := List.foldl_append

theorem calls_append (moves moves' : List Move) : calls (moves ++ moves') = calls moves ++ calls moves' :=
  List.filterMap_append

theorem calls_cons (m : Move) (moves : List Move) : calls (m :: moves) = m.call?.toList ++ calls moves := by
  rw [calls, List.filterMap_cons]
  cases m.call? <;> rfl

theorem calls_singleton (m : Move) : calls [m] = m.call?.toList := by
  rw [calls_cons, calls, List.filterMap_nil, List.append_nil]

/-! ## Statuses -/

@[simp] theorem status?_setStatus_self (s : PoolClients) (id : String) (st : ClientStatus) :
    (s.setStatus id st).status? id = some st := by
  have hnone : (s.clients.filter (·.1 ≠ id)).find? (·.1 = id) = none :=
    List.find?_eq_none.2 fun c hc => by simpa using (List.mem_filter.1 hc).2
  rw [status?, setStatus, List.find?_append, hnone]
  simp

theorem status?_filter_of_ne (s : PoolClients) (p : TokenPool String) (h : other ≠ id) :
    ({ s with pool := p, clients := s.clients.filter (·.1 ≠ id) } : PoolClients).status? other =
      s.status? other := by
  rw [status?, status?, List.find?_filter]
  congr 2
  funext c
  by_cases hc : c.1 = other
  · simp [hc, h]
  · simp [hc]

theorem status?_setStatus_of_ne (s : PoolClients) (st : ClientStatus) (h : other ≠ id) :
    (s.setStatus id st).status? other = s.status? other := by
  rw [← status?_filter_of_ne s s.pool h]
  simp [status?, setStatus, List.find?_append, Ne.symm h]

/-- No client is listed twice. -/
def Distinct (s : PoolClients) : Prop := (s.clients.map Prod.fst).Nodup

theorem status?_eq_of_mem (h : s.Distinct) {st : ClientStatus} (hm : (id, st) ∈ s.clients) :
    s.status? id = some st := by
  rcases hfind : s.clients.find? (·.1 = id) with _ | ⟨id', st'⟩
  · exact absurd (List.find?_eq_none.1 hfind (id, st) hm) (by simp)
  · have hid : id' = id := by simpa using List.find?_some hfind
    have heq := List.inj_on_of_nodup_map h (List.mem_of_find?_eq_some hfind) hm hid
    rw [status?, hfind, heq]
    rfl

/-- One client gets a status or is forgotten, and nobody else changes. -/
structure Becomes (s s' : PoolClients) (id : String) (status : Option ClientStatus) : Prop where
  /-- how the client stands -/
  self : s'.status? id = status
  /-- how the others stand -/
  others : ∀ other, other ≠ id → s'.status? other = s.status? other
  /-- no time passes -/
  now : s'.now = s.now
  /-- nobody is listed twice who was not before -/
  distinct : s.Distinct → s'.Distinct

theorem Distinct.filter (h : s.Distinct) (id : String) :
    ((s.clients.filter (·.1 ≠ id)).map Prod.fst).Nodup :=
  (List.filter_sublist.map Prod.fst).nodup h

theorem becomes_setStatus (s : PoolClients) (p : TokenPool String) (id : String) (st : ClientStatus) :
    s.Becomes ({ s with pool := p }.setStatus id st) id (some st) where
  self := status?_setStatus_self _ id st
  others _ h := status?_setStatus_of_ne _ st h
  now := rfl
  distinct h := by
    have hnew : ∀ name ∈ (s.clients.filter (·.1 ≠ id)).map Prod.fst, name ≠ id := by
      intro name hname
      obtain ⟨c, hc, rfl⟩ := List.mem_map.1 hname
      simpa using (List.mem_filter.1 hc).2
    rw [Distinct, setStatus, List.map_append, List.nodup_append]
    refine ⟨h.filter id, List.nodup_singleton id, fun name hname other hother => ?_⟩
    rw [show other = id from List.mem_singleton.1 hother]
    exact hnew name hname

theorem becomes_forgotten (s : PoolClients) (p : TokenPool String) (id : String) :
    s.Becomes { s with pool := p, clients := s.clients.filter (·.1 ≠ id) } id none where
  self := by
    rw [status?, Option.map_eq_none_iff]
    exact List.find?_eq_none.2 fun c hc => by simpa using (List.mem_filter.1 hc).2
  others _ h := status?_filter_of_ne s p h
  now := rfl
  distinct h := h.filter id

/-! ## What a move does -/

/-- A move of a client that changes anything: the pool after it, and what the client becomes. -/
inductive Turn (s : PoolClients) (id : String) :
    Move → TokenPool String → Option ClientStatus → Prop where
  /-- a free token is taken -/
  | takes {move : Move} : (move = .tryAcquire id ∨ move = .acquire id) → s.pool.closed = false →
      0 < s.pool.free →
      Turn s id move { s.pool with free := s.pool.free - 1, held := s.pool.held ++ [id] } (some .held)
  /-- an acquirer gets in line -/
  | waits : s.pool.closed = false → s.pool.free < 1 →
      Turn s id (.acquire id)
        { s.pool with free := 0, waiting := s.pool.waiting ++ [⟨id, 1 - s.pool.free, s.pool.free⟩] }
        (some .acquiring)
  /-- an acquirer finds the pool closed -/
  | refused : s.pool.closed = true → Turn s id (.acquire id) s.pool (some .refused)
  /-- a drain finds all tokens free -/
  | drainsAtOnce (millis : Nat) : s.pool.closed = false → s.pool.drainSize ≤ s.pool.free →
      Turn s id (.drain id millis)
        { s.pool with free := s.pool.free - s.pool.drainSize }.finishDrain (some .drained)
  /-- a drain gets in line -/
  | drainWaits (millis : Nat) : s.pool.closed = false → s.pool.free < s.pool.drainSize →
      Turn s id (.drain id millis)
        { s.pool with
          free := 0
          waiting := s.pool.waiting ++ [⟨id, s.pool.drainSize - s.pool.free, s.pool.free⟩] }
        (some (.draining (s.now + millis)))
  /-- a drain finds the pool closed -/
  | drainRefused (millis : Nat) : s.pool.closed = true →
      Turn s id (.drain id millis) s.pool (some .timedOut)
  /-- an acquirer learns of its token -/
  | learns {w : Waiter String} : s.status? id = some .acquiring → s.pool.closed = false →
      w ∈ s.pool.served → w.id = id →
      Turn s id (.look id)
        ({ s.pool with served := s.pool.served.filter (·.id ≠ id) }.hold id) (some .held)
  /-- a drain learns that it has all tokens -/
  | drains {w : Waiter String} {deadline : Nat} : s.status? id = some (.draining deadline) →
      s.pool.closed = false → w ∈ s.pool.served → w.id = id →
      Turn s id (.look id)
        { s.pool with served := s.pool.served.filter (·.id ≠ id) }.finishDrain (some .drained)
  /-- an acquirer learns that the pool is closed -/
  | shut : s.status? id = some .acquiring → s.pool.closed = true →
      Turn s id (.look id) (s.pool.cancel id) (some .refused)
  /-- a drain learns that the pool is closed -/
  | drainShut {deadline : Nat} : s.status? id = some (.draining deadline) → s.pool.closed = true →
      Turn s id (.look id) (s.pool.cancel id) (some .timedOut)
  /-- the time of a drain is up -/
  | expires {deadline : Nat} : s.status? id = some (.draining deadline) → s.pool.closed = false →
      (∀ w ∈ s.pool.served, w.id ≠ id) → deadline ≤ s.now →
      Turn s id (.look id) (s.pool.cancel id).close (some .timedOut)
  /-- a token is given back -/
  | givesBack : s.status? id = some .held → Turn s id (.leave id) (s.pool.release id) none
  /-- a request is withdrawn -/
  | givesUp {st : ClientStatus} : s.status? id = some st →
      (st = .acquiring ∨ ∃ deadline, st = .draining deadline) →
      Turn s id (.leave id) (s.pool.cancel id) none
  /-- a client with neither is forgotten -/
  | forgotten {st : ClientStatus} : s.status? id = some st →
      (st = .refused ∨ st = .drained ∨ st = .timedOut) → Turn s id (.leave id) s.pool none

/-- What somebody in line finds: that the pool is closed, or all it asks for, or nothing new. -/
theorem resume_cases (p : TokenPool String) (id : String) :
    (p.closed = true ∧ p.resume id = (.closed, p.cancel id)) ∨
    (p.closed = false ∧ (∃ w ∈ p.served, w.id = id) ∧
      p.resume id = (.served, { p with served := p.served.filter (·.id ≠ id) })) ∨
    (p.closed = false ∧ (∀ w ∈ p.served, w.id ≠ id) ∧ p.resume id = (.waiting, p)) := by
  rcases hc : p.closed
  · by_cases hs : p.served.any (·.id = id)
    · refine .inr (.inl ⟨rfl, ?_, ?_⟩)
      · simpa using hs
      · simp only [TokenPool.resume, hc, hs, if_true, Bool.false_eq_true, if_false]
    · refine .inr (.inr ⟨rfl, ?_, ?_⟩)
      · simpa using hs
      · simp only [TokenPool.resume, hc, hs, Bool.false_eq_true, if_false]
  · exact .inl ⟨rfl, by simp only [TokenPool.resume, hc, if_true]⟩

/-- What a request comes to: the pool is closed, so many tokens are free, or it has to wait. -/
theorem request_cases (p : TokenPool String) (id : String) (n : Nat) :
    (p.closed = true ∧ p.request id n = (.closed, p)) ∨
    (p.closed = false ∧ n ≤ p.free ∧ p.request id n = (.served, { p with free := p.free - n })) ∨
    (p.closed = false ∧ p.free < n ∧ p.request id n =
      (.waiting, { p with free := 0, waiting := p.waiting ++ [⟨id, n - p.free, p.free⟩] })) := by
  rcases hc : p.closed
  · by_cases hn : n ≤ p.free
    · exact .inr (.inl ⟨rfl, hn, by simp only [TokenPool.request, hc, hn, if_true,
        Bool.false_eq_true, if_false]⟩)
    · exact .inr (.inr ⟨rfl, Nat.lt_of_not_le hn, by simp only [TokenPool.request, hc, hn,
        Bool.false_eq_true, if_false]⟩)
  · exact .inl ⟨rfl, by simp only [TokenPool.request, hc, if_true]⟩

/-- A client changes the pool and its own status. -/
def Acts (s : PoolClients) (m : Move) : Prop :=
  ∃ id status, s.Turn id m (s.perform m).pool status ∧ s.Becomes (s.perform m) id status

theorem acts_setStatus {p : TokenPool String} {st : ClientStatus} (ht : s.Turn id m p (some st))
    (h : s.perform m = { s with pool := p }.setStatus id st) : s.Acts m :=
  ⟨id, some st, h ▸ ht, h ▸ becomes_setStatus s p id st⟩

theorem acts_forgotten {p : TokenPool String} (ht : s.Turn id m p none)
    (h : s.perform m = { s with pool := p, clients := s.clients.filter (·.1 ≠ id) }) : s.Acts m :=
  ⟨id, none, h ▸ ht, h ▸ becomes_forgotten s p id⟩

theorem perform_look (h : s.status? id = status) :
    s.perform (.look id) = (status.bind (s.look? id)).getD s := by
  rw [← h]
  rfl

/-- A client that looks finds nothing new, or acts. -/
theorem look_cases (s : PoolClients) (id : String) :
    s.perform (.look id) = s ∨ s.Acts (.look id) := by
  rcases hst : s.status? id with _ | st
  · exact .inl (by rw [perform_look hst]; rfl)
  · cases st with
    | acquiring =>
      rcases resume_cases s.pool id with ⟨hc, hr⟩ | ⟨hc, ⟨w, hw, hid⟩, hr⟩ | ⟨-, -, hr⟩
      · exact .inr (acts_setStatus (.shut hst hc) (by rw [perform_look hst]; simp [look?, hr]))
      · exact .inr (acts_setStatus (.learns hst hc hw hid) (by
          rw [perform_look hst]; simp [look?, hr]))
      · exact .inl (by rw [perform_look hst]; simp [look?, hr])
    | draining deadline =>
      rcases resume_cases s.pool id with ⟨hc, hr⟩ | ⟨hc, ⟨w, hw, hid⟩, hr⟩ | ⟨hc, hs, hr⟩
      · exact .inr (acts_setStatus (.drainShut hst hc) (by rw [perform_look hst]; simp [look?, hr]))
      · exact .inr (acts_setStatus (.drains hst hc hw hid) (by
          rw [perform_look hst]; simp [look?, hr]))
      · by_cases hd : deadline ≤ s.now
        · exact .inr (acts_setStatus (.expires hst hc hs hd) (by
            rw [perform_look hst]; simp [look?, hr, hd]))
        · exact .inl (by rw [perform_look hst]; simp [look?, hr, hd])
    | _ => exact .inl (by rw [perform_look hst]; rfl)

/-- A client that drains acts at once. -/
theorem acts_drain (s : PoolClients) (id : String) (millis : Nat) : s.Acts (.drain id millis) := by
  rcases request_cases s.pool id s.pool.drainSize with ⟨hc, hr⟩ | ⟨hc, hf, hr⟩ | ⟨hc, hf, hr⟩
  · exact acts_setStatus (.drainRefused millis hc) (by simp only [perform, hr])
  · exact acts_setStatus (.drainsAtOnce millis hc hf) (by simp only [perform, hr])
  · exact acts_setStatus (.drainWaits millis hc hf) (by simp only [perform, hr])

/-- Time passes, or nothing changes, or a client acts. -/
theorem perform_cases (s : PoolClients) (m : Move) :
    (∃ millis, m = .wait millis) ∨ s.perform m = s ∨ s.Acts m := by
  cases m with
  | tryAcquire id =>
    rcases hp : s.pool.tryAcquire? id with _ | p
    · exact .inr (.inl (by simp only [perform, hp]))
    · obtain ⟨hc, hf, rfl⟩ := TokenPool.tryAcquire?_eq_some hp
      exact .inr (.inr (acts_setStatus (.takes (.inl rfl) hc hf) (by simp only [perform, hp])))
  | acquire id =>
    rcases request_cases s.pool id 1 with ⟨hc, hr⟩ | ⟨hc, hf, hr⟩ | ⟨hc, hf, hr⟩
    · exact .inr (.inr (acts_setStatus (.refused hc) (by simp only [perform, hr])))
    · exact .inr (.inr (acts_setStatus (.takes (.inr rfl) hc hf) (by
        simp only [perform, hr, TokenPool.hold])))
    · exact .inr (.inr (acts_setStatus (.waits hc hf) (by simp only [perform, hr])))
  | drain id millis => exact .inr (.inr (acts_drain s id millis))
  | look id => exact .inr (look_cases s id)
  | leave id =>
    rcases hst : s.status? id with _ | st
    · exact .inr (.inl (by simp only [perform, hst]))
    · refine .inr (.inr ?_)
      cases st with
      | held => exact acts_forgotten (.givesBack hst) (by simp only [perform, hst])
      | acquiring => exact acts_forgotten (.givesUp hst (.inl rfl)) (by simp only [perform, hst])
      | draining deadline =>
        exact acts_forgotten (.givesUp hst (.inr ⟨deadline, rfl⟩)) (by simp only [perform, hst])
      | refused => exact acts_forgotten (.forgotten hst (.inl rfl)) (by simp only [perform, hst])
      | drained => exact acts_forgotten (.forgotten hst (.inr (.inl rfl))) (by simp only [perform, hst])
      | timedOut => exact acts_forgotten (.forgotten hst (.inr (.inr rfl))) (by simp only [perform, hst])
  | wait millis => exact .inl ⟨millis, rfl⟩

/-! ## Everybody looks -/

theorem Distinct.perform (h : s.Distinct) (m : Move) : (s.perform m).Distinct := by
  rcases perform_cases s m with ⟨millis, rfl⟩ | hs | ⟨id, st, -, hb⟩
  · exact h
  · rwa [hs]
  · exact hb.distinct h

theorem Distinct.run (h : s.Distinct) (moves : List Move) : (s.run moves).Distinct := by
  induction moves generalizing s with
  | nil => exact h
  | cons m moves ih => exact ih (h.perform m)

/-- That those clients look, one after the other. -/
def looks (ids : List String) : List Move := ids.map .look

theorem calls_looks (ids : List String) : calls (looks ids) = [] := by
  rw [calls, List.filterMap_eq_nil_iff]
  intro m hm
  obtain ⟨id, -, rfl⟩ := List.mem_map.1 hm
  rfl

theorem now_run_looks (s : PoolClients) (ids : List String) : (s.run (looks ids)).now = s.now := by
  induction ids generalizing s with
  | nil => rfl
  | cons id ids ih =>
    refine (ih _).trans ?_
    rcases look_cases s id with hs | ⟨_, _, -, hb⟩
    · rw [hs]
    · exact hb.now

theorem settle_eq_run (h : s.Distinct) : ∃ ids, s.settle = s.run (looks ids) := by
  have hgo : ∀ (n : Nat) {s : PoolClients}, s.Distinct → ∃ ids, settle.go n s = s.run (looks ids) := by
    intro n
    induction n with
    | zero => exact fun _ => ⟨[], rfl⟩
    | succ n ih =>
      intro s h
      rcases hfind : s.clients.findSome? fun c => s.look? c.1 c.2 with _ | s'
      · exact ⟨[], by simp only [settle.go, hfind]; rfl⟩
      · obtain ⟨⟨id, st⟩, hmem, hlook⟩ := List.exists_of_findSome?_eq_some hfind
        have hperform : s.perform (.look id) = s' := by
          rw [perform_look (status?_eq_of_mem h hmem)]
          simp only [Option.bind_some, hlook, Option.getD_some]
        obtain ⟨ids, hids⟩ := ih (hperform ▸ h.perform (.look id) : s'.Distinct)
        refine ⟨id :: ids, ?_⟩
        simp only [settle.go, hfind, hids]
        rw [← hperform]
        rfl
  exact hgo s.clients.length h

/-- A move after which everybody looks who can go on, also whenever the time of a drain is up. -/
def performAll (s : PoolClients) : Move → PoolClients
  | .tryAcquire id => (s.tryAcquire id).2
  | .acquire id => s.acquire id
  | .drain id millis => s.drain id millis
  | .look _ => s.settle
  | .leave id => (s.release id).2
  | .wait millis => s.advance millis

/-- A deadline that is up next is not later than asked. -/
theorem nextDeadline?_le {limit deadline : Nat} (h : s.nextDeadline? limit = some deadline) :
    deadline ≤ limit := by
  obtain ⟨⟨_, st⟩, -, hst⟩ := List.mem_filterMap.1 (List.min?_mem h)
  cases st with
  | draining deadline' =>
    simp only [Option.ite_none_right_eq_some, Option.some.injEq] at hst
    exact hst.2 ▸ hst.1
  | _ => cases hst

/-- Moves that pass the time, not beyond some limit. -/
theorem advance_eq_run (h : s.Distinct) (millis : Nat) :
    ∃ moves, calls moves = [] ∧ s.advance millis = s.run moves := by
  have hgo : ∀ (n : Nat) {s' : PoolClients}, s'.Distinct → s'.now ≤ s.now + millis →
      ∃ moves, calls moves = [] ∧ advance.go s millis n s' = s'.run moves ∧
        (s'.run moves).now ≤ s.now + millis := by
    intro n
    induction n with
    | zero => exact fun _ hnow => ⟨[], rfl, rfl, hnow⟩
    | succ n ih =>
      intro s' h hnow
      rcases hnext : s'.nextDeadline? (s.now + millis) with _ | deadline
      · exact ⟨[], rfl, by simp only [advance.go, hnext]; rfl, hnow⟩
      · have hlater := nextDeadline?_le hnext
        have hwait : { s' with now := max s'.now deadline } =
            s'.perform (.wait (max s'.now deadline - s'.now)) := by
          rw [perform, Nat.add_sub_cancel' (Nat.le_max_left _ _)]
        obtain ⟨ids, hids⟩ := settle_eq_run (h.perform (.wait (max s'.now deadline - s'.now)))
        rw [← hwait] at hids
        have hnow' : ({ s' with now := max s'.now deadline }.run (looks ids)).now ≤ s.now + millis := by
          rw [now_run_looks]
          exact Nat.max_le.2 ⟨hnow, hlater⟩
        obtain ⟨moves, hcalls, hgo, hle⟩ := ih (Distinct.run (s := { s' with now := max s'.now deadline })
          h (looks ids)) hnow'
        refine ⟨.wait (max s'.now deadline - s'.now) :: looks ids ++ moves, ?_, ?_, ?_⟩
        · rw [List.cons_append, calls_cons, calls_append, calls_looks, hcalls]
          rfl
        · simp only [advance.go, hnext, hids, hgo]
          rw [hwait, List.cons_append, run_cons, run_append]
        · rw [List.cons_append, run_cons, run_append, ← hwait]
          exact hle
  obtain ⟨moves, hcalls, hgo, hle⟩ := hgo s.clients.length h (Nat.le_add_right _ _)
  refine ⟨moves ++ [.wait (s.now + millis - (s.run moves).now)], ?_, ?_⟩
  · rw [calls_append, hcalls]
    rfl
  · have hwait : (s.run moves).now + (s.now + millis - (s.run moves).now) = s.now + millis :=
      Nat.add_sub_cancel' hle
    rw [run_append, advance, hgo, run_cons, perform, hwait]
    rfl

/-- What happens with everybody looking who can go on is a run of moves, with the same calls. -/
theorem performAll_eq_run (h : s.Distinct) (m : Move) :
    ∃ moves, calls moves = m.call?.toList ∧ s.performAll m = s.run moves := by
  have hsettle : ∃ moves, calls moves = m.call?.toList ∧ (s.perform m).settle = s.run moves := by
    obtain ⟨ids, hids⟩ := settle_eq_run (h.perform m)
    exact ⟨m :: looks ids, by rw [calls_cons, calls_looks, List.append_nil], hids⟩
  cases m with
  | tryAcquire id =>
    rcases hp : s.pool.tryAcquire? id with _ | p
    · refine ⟨[.tryAcquire id], rfl, ?_⟩
      simp only [performAll, tryAcquire, hp, run, List.foldl_cons, List.foldl_nil, perform]
    · simpa only [performAll, tryAcquire, perform, hp] using hsettle
  | acquire id =>
    rcases request_cases s.pool id 1 with ⟨-, hr⟩ | ⟨-, -, hr⟩ | ⟨-, -, hr⟩ <;>
      simpa only [performAll, acquire, perform, hr] using hsettle
  | drain id millis =>
    rcases request_cases s.pool id s.pool.drainSize with ⟨-, hr⟩ | ⟨-, -, hr⟩ | ⟨-, -, hr⟩ <;>
      simpa only [performAll, drain, perform, hr] using hsettle
  | look id =>
    obtain ⟨ids, hids⟩ := settle_eq_run h
    exact ⟨looks ids, calls_looks ids, hids⟩
  | leave id =>
    rcases hst : s.status? id with _ | st
    · refine ⟨[], rfl, ?_⟩
      simp only [performAll, release, hst]
      rfl
    · cases st <;> simpa only [performAll, release, perform, hst] using hsettle
  | wait millis => exact advance_eq_run h millis

/-- So is a whole history of them. -/
theorem foldl_performAll_eq_run (h : s.Distinct) (moves : List Move) :
    ∃ moves', calls moves' = calls moves ∧ moves.foldl performAll s = s.run moves' := by
  induction moves generalizing s with
  | nil => exact ⟨[], rfl, rfl⟩
  | cons m moves ih =>
    obtain ⟨first, hfirst, hperform⟩ := performAll_eq_run h m
    obtain ⟨rest, hrest, hrun⟩ := ih (hperform ▸ h.run first : (s.performAll m).Distinct)
    refine ⟨first ++ rest, ?_, ?_⟩
    · rw [calls_append, hfirst, hrest, calls_cons]
    · rw [List.foldl_cons, hrun, hperform, run_append]

end ConsumerGroup.PoolClients
