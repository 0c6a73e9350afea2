import ConsumerGroup.Proofs.TokenPool.Drains

/-!
# The order of tokens

Tasks take tokens of a pool, wait for them, give them back and withdraw, in any order, and one of them may
drain the pool.  This module says who gets a token, when, and what the drain comes to: `tokens_in_order`.
-/

namespace ConsumerGroup.PoolClients

/-- The tokens of a pool and who called for them, in that order. -/
structure Orderly (capacity : Nat) (called : List String) (s : PoolClients) : Prop where
  /-- no more tokens are held than there are -/
  held_le : s.pool.held.length ≤ max capacity 1
  /-- one by each client that says so -/
  held_iff : ∀ id, id ∈ s.pool.held ↔ s.status? id = some .held
  /-- and none twice -/
  held_nodup : s.pool.held.Nodup
  /-- each of the tokens is free, or held, or a request has got it -/
  accounted : s.pool.free + s.pool.held.length + TokenPool.gotBy s.pool.waiting +
    TokenPool.gotBy s.pool.served = max capacity 1
  /-- a request is that of a client that waits for one token, or for all of them -/
  asked : ∀ w, w ∈ s.pool.served ∨ w ∈ s.pool.waiting →
    (s.status? w.id = some .acquiring ∧ w.missing + w.got = 1) ∨
    ∃ deadline, s.status? w.id = some (.draining deadline) ∧ w.missing + w.got = max capacity 1
  /-- a client that withdraws, also one that has got its tokens, leaves them to the others -/
  given_back : ∀ w, w ∈ s.pool.served ∨ w ∈ s.pool.waiting → ∀ p, p = (s.perform (.leave w.id)).pool →
    p.held = s.pool.held ∧ (∀ w', w' ∈ p.served ∨ w' ∈ p.waiting → w'.id ≠ w.id) ∧
      p.free + TokenPool.gotBy p.waiting + TokenPool.gotBy p.served =
        s.pool.free + TokenPool.gotBy s.pool.waiting + TokenPool.gotBy s.pool.served
  /-- the requests are in the order of the calls -/
  lined_up : ((s.pool.served ++ s.pool.waiting).map Waiter.id).Sublist called
  /-- while somebody waits, no token is free -/
  used_up : s.pool.waiting ≠ [] → s.pool.free = 0
  /-- and nobody who called later has one -/
  first_served : ∀ a b, [a, b].Sublist called → (∃ w ∈ s.pool.waiting, w.id = a) →
    b ∉ s.pool.held ∧ ∀ w ∈ s.pool.served, w.id ≠ b
  /-- who is served holds a token when it looks, if the pool is open -/
  told : s.pool.closed = false → ∀ w ∈ s.pool.served, s.status? w.id = some .acquiring →
    (s.perform (.look w.id)).status? w.id = some .held
  /-- when a drain has returned in time nobody holds a token -/
  alone : ∀ d, s.status? d = some .drained → s.pool.held = []
  /-- and when it has returned at all nobody gets one any more -/
  shut : ∀ d, s.status? d = some .drained ∨ s.status? d = some .timedOut →
    ∀ later, (called ++ calls later).Nodup →
      ∀ id, (s.run later).status? id = some .held → s.status? id = some .held

/-- The drain of `d` has returned so, or does when `d` looks next. -/
def Returns (s : PoolClients) (d : String) (status : ClientStatus) : Prop :=
  (s.perform (.look d)).status? d = some status

/-- What the drain of `d` comes to which begins when the clients stand as in `s`, after some moves. -/
structure DrainEnds (s : PoolClients) (d : String) (millis : Nat) (after : List Move) : Prop where
  /-- in time, if each who had a token or waited for one is gone before the deadline -/
  in_time :
    (∀ o, s.IsOwner o → ∃ mid, mid <+: after ∧ (s.run (.drain d millis :: mid)).now < s.now + millis ∧
      ¬ (s.run (.drain d millis :: mid)).IsOwner o) →
    (s.run (.drain d millis :: after)).Returns d .drained
  /-- too late, if one of them is still there when it looks at the deadline or after it -/
  too_late : s.now + millis ≤ (s.run (.drain d millis :: after)).now →
    ∀ o, s.IsOwner o → (s.run (.drain d millis :: after)).IsOwner o →
      (s.run (.drain d millis :: after)).Returns d .timedOut
  /-- and for good, if it is on time and one of them is still there after the deadline -/
  held_over : (s.perform (.drain d millis)).OnTime d after →
    ∀ mid, mid <+: after → s.now + millis < (s.run (.drain d millis :: mid)).now →
      ∀ o, s.IsOwner o → (s.run (.drain d millis :: mid)).IsOwner o →
        (s.run (.drain d millis :: after)).status? d = some .timedOut
  /-- if it is on time it has returned after the deadline -/
  punctual : (s.perform (.drain d millis)).OnTime d after →
    s.now + millis < (s.run (.drain d millis :: after)).now →
      (s.run (.drain d millis :: after)).status? d = some .drained ∨
      (s.run (.drain d millis :: after)).status? d = some .timedOut

variable {s s₀ : PoolClients} {d o : String} {called : List String} {capacity millis : Nat}
  {mid after : List Move}

/-- A client in line that leaves withdraws its request. -/
theorem Sound.pool_leave (h : s.Sound capacity called) {w : Waiter String}
    (hw : w ∈ s.pool.served ∨ w ∈ s.pool.waiting) :
    (s.perform (.leave w.id)).pool = s.pool.cancel w.id := by
  rcases h.status_of_mem hw with ⟨hst, -⟩ | ⟨deadline, hst, -⟩ <;>
    simp only [PoolClients.perform, hst]

/-- What it has got goes to the others. -/
theorem Sound.given_back (h : s.Sound capacity called) {w : Waiter String}
    (hw : w ∈ s.pool.served ∨ w ∈ s.pool.waiting) {p : TokenPool String} (hp : p = s.pool.cancel w.id) :
    p.held = s.pool.held ∧ (∀ w', w' ∈ p.served ∨ w' ∈ p.waiting → w'.id ≠ w.id) ∧
      p.free + TokenPool.gotBy p.waiting + TokenPool.gotBy p.served =
        s.pool.free + TokenPool.gotBy s.pool.waiting + TokenPool.gotBy s.pool.served := by
  have hcancel := h.inOrder.cancel_eq h.nodup hw
  have hheld : p.held = s.pool.held := hp ▸ TokenPool.held_cancel _ _
  refine ⟨hheld, fun w' hw' hid => ?_, ?_⟩
  · have hline := TokenPool.mem_line_of_mem hw'
    rw [hp, hcancel, (h.inOrder.without w.id).line_give, TokenPool.line_without] at hline
    simpa [hid] using (List.mem_filter.1 hline).2
  · have hb := h.balanced
    have hb' : p.Balanced 0 := by
      rw [hp, hcancel]
      exact (h.inOrder.balanced_without h.nodup h.balanced hw).give
    have hcap : p.capacity = s.pool.capacity := hp ▸ TokenPool.capacity_cancel _ _
    rw [TokenPool.Balanced, hheld, hcap] at hb'
    rw [TokenPool.Balanced] at hb
    omega

theorem Sound.orderly (h : s.Sound (max capacity 1) called) : s.Orderly capacity called where
  held_le := h.capacity_eq ▸ h.balanced.held_length_le
  held_iff := h.held_iff
  held_nodup := h.held_nodup
  accounted := h.balanced.trans h.capacity_eq
  asked w hw := by
    rw [← h.capacity_eq, ← h.drainSize_eq]
    exact h.status_of_mem hw
  given_back w hw p hp := h.given_back hw (hp.trans (h.pool_leave hw))
  lined_up := by
    rw [List.map_append, ← TokenPool.map_fst_line]
    exact h.inOrder.line_sublist
  used_up := h.inOrder.short
  told hopen w hw hst := by
    rcases resume_cases s.pool w.id with ⟨hc, -⟩ | ⟨-, -, hr⟩ | ⟨-, hs, -⟩
    · exact absurd hc (by rw [hopen]; exact Bool.false_ne_true)
    · rw [perform_look hst]
      simp [look?, hr]
    · exact absurd rfl (hs w hw)
  first_served a b hab hwaits := by
    obtain ⟨w, hw, rfl⟩ := hwaits
    refine ⟨fun hb => ?_, fun w' hw' hid => ?_⟩
    · exact not_sublist_swap h.nodup hab (h.inOrder.ahead b hb w hw)
    · exact not_sublist_swap h.nodup hab (hid ▸ h.inOrder.served_ahead hw' hw)
  alone := h.alone
  shut d hd later hlater id hst := by
    have hheld := ((h.run later hlater).held_iff id).2 hst
    exact (h.held_iff id).1 ((h.shut_run (h.returned d hd) later hlater).2 hheld)

/-! ## The drain -/

/-- A drain that has all tokens returns in time when it looks. -/
theorem returns_drained {deadline : Nat} (hst : s.status? d = some (.draining deadline))
    (hopen : s.pool.closed = false) (hserved : ∃ w ∈ s.pool.served, w.id = d) :
    s.Returns d .drained := by
  rcases resume_cases s.pool d with ⟨hc, -⟩ | ⟨-, -, hr⟩ | ⟨-, hs, -⟩
  · exact absurd hc (by rw [hopen]; exact Bool.false_ne_true)
  · rw [Returns, perform_look hst]
    simp [look?, hr]
  · obtain ⟨w, hw, hid⟩ := hserved
    exact absurd hid (hs w hw)

/-- One that has not, and whose time is up, returns too late. -/
theorem returns_timedOut {deadline : Nat} (hst : s.status? d = some (.draining deadline))
    (hopen : s.pool.closed = false) (hserved : ∀ w ∈ s.pool.served, w.id ≠ d) (hnow : deadline ≤ s.now) :
    s.Returns d .timedOut := by
  rcases resume_cases s.pool d with ⟨hc, -⟩ | ⟨-, ⟨w, hw, hid⟩, -⟩ | ⟨-, -, hr⟩
  · exact absurd hc (by rw [hopen]; exact Bool.false_ne_true)
  · exact absurd hid (hserved w hw)
  · rw [Returns, perform_look hst]
    simp [look?, hr, hnow]

/-- A drain that has returned stays so. -/
theorem returns_of_status {st : ClientStatus} (hst : s.status? d = some st)
    (hreturned : st = .drained ∨ st = .timedOut) : s.Returns d st :=
  status?_of_returned hst hreturned nofun nofun

/-- Who is gone after some moves does not come back. -/
theorem stays_gone {moves moves' : List Move} (hpre : moves <+: moves')
    (hcalls : o ∉ calls moves') (ho : ¬ (s.run moves).IsOwner o) : ¬ (s.run moves').IsOwner o := by
  obtain ⟨rest, rfl⟩ := hpre
  rw [calls_append, List.mem_append, not_or] at hcalls
  rw [run_append]
  exact fun hyes => ho (isOwner_of_run hcalls.2 hyes)

namespace OneDrain

theorem in_time (h : OneDrain capacity called s₀ d after)
    (hgone : ∀ o, s₀.IsOwner o → ∃ mid, mid <+: after ∧
      (s₀.run (.drain d millis :: mid)).now < s₀.now + millis ∧
      ¬ (s₀.run (.drain d millis :: mid)).IsOwner o) :
    (s₀.run (.drain d millis :: after)).Returns d .drained := by
  cases h.stage millis with
  | drained hst => exact returns_of_status hst (.inl rfl)
  | pending hst hopen =>
    refine returns_drained hst hopen ?_
    by_contra hwaits
    obtain ⟨o, hbefore, ho⟩ := h.sound_run.exists_owner_of_not_served hst (fun _ _ => h.only)
      fun w hw hid => hwaits ⟨w, hw, hid⟩
    have ho₀ := h.isOwner_before hbefore ho
    obtain ⟨mid, hmid, -, hno⟩ := hgone o ho₀
    exact stays_gone hmid (h.not_mem_calls ho₀) hno ho
  | timedOut mid hst hmid hnow howner =>
    -- Whoever was there at the deadline was not gone before.
    obtain ⟨o, ho₀, ho⟩ := howner
    obtain ⟨mid', hmid', hnow', hno⟩ := hgone o ho₀
    rcases List.prefix_or_prefix_of_prefix hmid hmid' with ⟨rest, rfl⟩ | hpre
    · have hle := now_le_run ((s₀.perform (.drain d millis)).run mid) rest
      rw [← run_append] at hle
      exact absurd (Nat.lt_of_le_of_lt (Nat.le_trans hnow hle) hnow') (Nat.lt_irrefl _)
    · exact absurd ho (stays_gone hpre ((h.of_prefix hmid).not_mem_calls ho₀) hno)

theorem too_late (h : OneDrain capacity called s₀ d after)
    (hnow : s₀.now + millis ≤ (s₀.run (.drain d millis :: after)).now) (ho₀ : s₀.IsOwner o)
    (ho : (s₀.run (.drain d millis :: after)).IsOwner o) :
    (s₀.run (.drain d millis :: after)).Returns d .timedOut := by
  cases h.stage millis with
  | drained _ hnone => exact absurd ho (hnone o ho₀)
  | timedOut _ hst => exact returns_of_status hst (.inr rfl)
  | pending hst hopen =>
    refine returns_timedOut hst hopen (fun w hw hid => ?_) hnow
    subst hid
    exact h.sound_run.no_owner_of_served hst hw (h.pair_sublist ho₀) ho

theorem punctual (h : OneDrain capacity called s₀ d after)
    (htime : (s₀.perform (.drain d millis)).OnTime d after)
    (hnow : s₀.now + millis < (s₀.run (.drain d millis :: after)).now) :
    (s₀.run (.drain d millis :: after)).status? d = some .drained ∨
      (s₀.run (.drain d millis :: after)).status? d = some .timedOut := by
  cases h.stage millis with
  | drained hst => exact .inl hst
  | timedOut _ hst => exact .inr hst
  | pending hst =>
    have hstart : (s₀.perform (.drain d millis)).now ≤ s₀.now + millis := by
      obtain ⟨_, _, -, hb⟩ := acts_drain s₀ d millis
      rw [hb.now]
      exact Nat.le_add_right _ _
    exact absurd (htime.now_le (fun _ => hstart) h.alone hst) (Nat.not_le_of_lt hnow)

theorem held_over (h : OneDrain capacity called s₀ d after)
    (htime : (s₀.perform (.drain d millis)).OnTime d after) (hmid : mid <+: after)
    (hnow : s₀.now + millis < (s₀.run (.drain d millis :: mid)).now) (ho₀ : s₀.IsOwner o)
    (ho : (s₀.run (.drain d millis :: mid)).IsOwner o) :
    (s₀.run (.drain d millis :: after)).status? d = some .timedOut := by
  have h' := h.of_prefix hmid
  have hlate := h'.too_late (Nat.le_of_lt hnow) ho₀ ho
  have hst : (s₀.run (.drain d millis :: mid)).status? d = some .timedOut := by
    rcases h'.punctual (htime.of_prefix hmid) hnow with hst | hst
    · have hcontra := returns_of_status hst (.inl rfl)
      rw [Returns, hlate] at hcontra
      cases hcontra
    · exact hst
  obtain ⟨rest, rfl⟩ := hmid
  have hcalls : d ∉ calls (mid ++ rest) := (List.nodup_cons.1 (List.nodup_append.1 h.nodup).2.1).1
  rw [calls_append, List.mem_append, not_or] at hcalls
  rw [← List.cons_append, run_append]
  exact status?_run_of_returned hst (.inr rfl) hcalls.2 fun hm =>
    h.remains (List.mem_append_right _ hm)

theorem drainEnds (h : OneDrain capacity called s₀ d after) (millis : Nat) : s₀.DrainEnds d millis after where
  in_time := h.in_time
  too_late hnow _ := h.too_late hnow
  held_over htime _ hmid hnow _ := h.held_over htime hmid hnow
  punctual := h.punctual

end OneDrain

/-- **Order of tokens.**  Let a pool have any number of tokens that a drain can ask for, and let every
call be that of another client.  Whatever the clients do, and whenever they go on:
* no more tokens are held than there are, none is lost and none is made, and who withdraws gives back
  what it has got;
* while somebody waits, no token is free, and nobody who called later has one;
* a drain that returns in time does so while nobody holds a token, and after any drain has returned nobody
  gets one;
* all this also if after each move everybody looks who can go on;
* if there is one drain, it returns in time if all who had a token or waited for one when it began are gone
  before its deadline, and too late if one of them is still there at the deadline. -/
theorem tokens_in_order (hcap : capacity ≤ 4294967295) {moves : List Move}
    (hcalls : (calls moves).Nodup) :
    ((start capacity).run moves).Orderly capacity (calls moves) ∧
      (moves.foldl performAll (start capacity)).Orderly capacity (calls moves) ∧
      ∀ before d millis after, moves = before ++ .drain d millis :: after →
        (∀ id millis, .drain id millis ∉ before ++ after) → .leave d ∉ after →
          ((start capacity).run before).DrainEnds d millis after := by
  refine ⟨(sound_run hcap hcalls).orderly, ?_, ?_⟩
  · have hstart : (start capacity).Distinct := List.nodup_nil
    obtain ⟨moves', hcalls', hrun⟩ := foldl_performAll_eq_run hstart moves
    rw [hrun, ← hcalls']
    exact (sound_run hcap (hcalls' ▸ hcalls)).orderly
  rintro before d millis after rfl hdrain hleave
  have hnew : (calls before ++ d :: calls after).Nodup := by
    rwa [calls_append, calls_cons] at hcalls
  refine OneDrain.drainEnds ⟨sound_run hcap (List.nodup_append.1 hnew).1, ?_, hnew, ?_, hleave⟩ millis
  · exact (undrained_start capacity).run fun id millis hm =>
      hdrain id millis (List.mem_append_left _ hm)
  · exact fun id millis hm => hdrain id millis (List.mem_append_right _ hm)

/-- One client holds the only token, and another one waits for it. -/
def twoOwners : List Move := [.acquire "a", .acquire "b"]

/-- While a drain waits, both come to the token and give it back. -/
def bothGiveBack : List Move :=
  [.acquire "c", .wait 5, .leave "a", .look "b", .wait 4, .leave "b", .look "d"]

/-- The first gives the token back when it is too late. -/
def firstIsLate : List Move := [.wait 10, .look "d", .wait 1, .leave "a"]

/-- A drain in line behind two others returns in time if they are, and nobody behind it gets a token; it
returns too late if the first is. -/
theorem tokens_in_order_twoOwners :
    ((start 1).run (twoOwners ++ .drain "d" 10 :: bothGiveBack)).Returns "d" .drained ∧
      (∀ later, (["a", "b", "d", "c"] ++ calls later).Nodup → ∀ id,
        (((start 1).run (twoOwners ++ .drain "d" 10 :: bothGiveBack)).run later).status? id ≠
          some .held) ∧
      ((start 1).run (twoOwners ++ .drain "d" 10 :: firstIsLate)).status? "d" = some .timedOut := by
  obtain ⟨hinTime, -, hdrain⟩ := tokens_in_order (by decide : 1 ≤ 4294967295)
    (by decide +kernel : (calls (twoOwners ++ .drain "d" 10 :: bothGiveBack)).Nodup)
  obtain ⟨-, -, hdrain'⟩ := tokens_in_order (by decide : 1 ≤ 4294967295)
    (by decide +kernel : (calls (twoOwners ++ .drain "d" 10 :: firstIsLate)).Nodup)
  refine ⟨?_, fun later hlater id hst => ?_, ?_⟩
  · refine (hdrain twoOwners "d" 10 bothGiveBack rfl (by simp [twoOwners, bothGiveBack])
      (by decide +kernel)).in_time fun o ho => ?_
    have hknown : o ∈ calls twoOwners :=
      (sound_run (by decide : 1 ≤ 4294967295) (by decide +kernel)).known o (by
        rcases ho with ho | ho <;> (rw [ho]; exact Option.some_ne_none _))
    rcases List.mem_pair.1 (hknown : o ∈ ["a", "b"]) with rfl | rfl
    · exact ⟨bothGiveBack.take 3, List.take_prefix _ _, by decide +kernel, by decide +kernel⟩
    · exact ⟨bothGiveBack.take 6, List.take_prefix _ _, by decide +kernel, by decide +kernel⟩
  · have hheld := hinTime.shut "d" (.inl (by decide +kernel)) later hlater id hst
    rw [← hinTime.held_iff, hinTime.alone "d" (by decide +kernel)] at hheld
    cases hheld
  · refine (hdrain' twoOwners "d" 10 firstIsLate rfl (by simp [twoOwners, firstIsLate])
      (by decide +kernel)).held_over ?_ (firstIsLate.take 3) (List.take_prefix _ _) (by decide +kernel)
      "a" (by decide +kernel) (by decide +kernel)
    intro first millis rest deadline heq hst
    have hsplit : first = [] ∧ millis = 10 ∨ first = [.wait 10, .look "d"] := by
      simp only [firstIsLate, List.cons_eq_append_iff, List.nil_eq_append_iff, List.cons.injEq,
        Move.wait.injEq, reduceCtorEq, false_and, and_false, exists_false, or_false, false_or] at heq
      rcases heq with ⟨rfl, hwait, -⟩ | ⟨_, rfl, _, rfl, rfl, -⟩
      · exact .inl ⟨rfl, hwait⟩
      · exact .inr rfl
    rcases hsplit with ⟨rfl, rfl⟩ | rfl
    · have hwaits : ((start 1).run (twoOwners ++ [.drain "d" 10])).status? "d" = some (.draining 10) := by
        decide +kernel
      cases (hst.symm.trans hwaits)
      decide +kernel
    · have hreturned : ((start 1).run (twoOwners ++ [.drain "d" 10, .wait 10, .look "d"])).status? "d" =
          some .timedOut := by decide +kernel
      cases (hst.symm.trans hreturned)

end ConsumerGroup.PoolClients
