import ConsumerGroup.Proofs.TokenPool.Moves

/-!
# A pool and its clients

What always holds of a pool and the clients that use it, whatever moves they make.

* `PoolClients.Sound` — all tokens are accounted for, those who hold one or stand in line are the clients
  that say so, and after a drain nobody holds a token: `sound_run`.
* `Leaves` — what one turn of a client leaves of the pool; `leaves_of_turn` goes through the turns.
* `Shut` — after the pool is closed nobody gets a token.
-/

namespace ConsumerGroup

/-- How many tokens a client of that status waits for, where a drain waits for `all`. -/
def ClientStatus.asks? (all : Nat) : ClientStatus → Option Nat
  | .acquiring => some 1
  | .draining _ => some all
  | _ => none

namespace PoolClients

/-- A pool and its clients agree. -/
structure Sound (capacity : Nat) (called : List String) (s : PoolClients) : Prop where
  /-- nobody called twice -/
  nodup : called.Nodup
  /-- there are so many tokens -/
  capacity_eq : s.pool.capacity = capacity
  /-- at least one -/
  pos : 0 < s.pool.capacity
  /-- and a drain can ask for all of them -/
  drainSize_eq : s.pool.drainSize = s.pool.capacity
  /-- each token is somewhere -/
  balanced : s.pool.Balanced 0
  /-- the line is in the order of the calls -/
  inOrder : s.pool.InOrder called
  /-- nobody holds two tokens -/
  held_nodup : s.pool.held.Nodup
  /-- every client called -/
  known : ∀ id, s.status? id ≠ none → id ∈ called
  /-- tokens are held by those clients that say so -/
  held_iff : ∀ id, id ∈ s.pool.held ↔ s.status? id = some .held
  /-- and asked for by those that say so -/
  line_iff : ∀ id n, (id, n) ∈ s.pool.line ↔
    (s.status? id).bind (·.asks? s.pool.drainSize) = some n
  /-- a drain that has returned has closed the pool -/
  returned : ∀ id, s.status? id = some .drained ∨ s.status? id = some .timedOut → s.pool.closed = true
  /-- and nobody holds a token if it was in time -/
  alone : ∀ id, s.status? id = some .drained → s.pool.held = []

/-- What a turn of a client leaves of the pool: what the others have and ask for stays. -/
structure Leaves (called : List String) (s : PoolClients) (id : String) (p : TokenPool String)
    (status : Option ClientStatus) : Prop where
  /-- there are as many tokens as before -/
  capacity_eq : p.capacity = s.pool.capacity
  /-- each token is somewhere -/
  balanced : p.Balanced 0
  /-- the line is in the order of the calls -/
  inOrder : p.InOrder called
  /-- who becomes anything has called -/
  known : status ≠ none → id ∈ called
  /-- nobody holds two tokens -/
  held_nodup : p.held.Nodup
  /-- the client holds a token if it says so -/
  held_self : id ∈ p.held ↔ status = some .held
  /-- and the others if they did before -/
  held_others : ∀ other, other ≠ id → (other ∈ p.held ↔ other ∈ s.pool.held)
  /-- the client asks for tokens if it says so -/
  line_self : ∀ n, (id, n) ∈ p.line ↔ status.bind (·.asks? s.pool.drainSize) = some n
  /-- and the others if they did before -/
  line_others : ∀ other, other ≠ id → ∀ n, ((other, n) ∈ p.line ↔ (other, n) ∈ s.pool.line)
  /-- a closed pool stays so, and nobody gets a token from it -/
  shut : s.pool.closed = true → p.closed = true ∧ p.held ⊆ s.pool.held
  /-- a drain that returns closes the pool -/
  returned : status = some .drained ∨ status = some .timedOut → p.closed = true
  /-- and nobody holds a token if it is in time -/
  alone : status = some .drained → p.held = []

variable {s s' : PoolClients} {id other : String} {st : ClientStatus} {status : Option ClientStatus}
  {m : Move} {p : TokenPool String} {called : List String} {capacity n : Nat} {w : Waiter String}

namespace Sound

/-- Who has not called holds nothing and asks for nothing. -/
theorem not_mem_of_new (h : s.Sound capacity called) (hnew : id ∉ called) :
    id ∉ s.pool.held ∧ ∀ n, (id, n) ∉ s.pool.line :=
  ⟨fun hh => hnew (h.inOrder.held_called id hh), fun n hl =>
    hnew (h.inOrder.line_sublist.subset (List.mem_map_of_mem hl : (id, n).1 ∈ s.pool.line.map Prod.fst))⟩

/-- How a client stands whose request is in line. -/
theorem asks?_of_mem (h : s.Sound capacity called) (hw : w ∈ s.pool.served ∨ w ∈ s.pool.waiting)
    (hst : s.status? w.id = some st) : st.asks? s.pool.drainSize = some (w.missing + w.got) := by
  have hasks := (h.line_iff w.id _).1 (TokenPool.mem_line_of_mem hw)
  rwa [hst, Option.bind_some] at hasks

/-- So it waits for one token, or for all of them. -/
theorem status_of_mem (h : s.Sound capacity called) (hw : w ∈ s.pool.served ∨ w ∈ s.pool.waiting) :
    (s.status? w.id = some .acquiring ∧ w.missing + w.got = 1) ∨
    ∃ deadline, s.status? w.id = some (.draining deadline) ∧ w.missing + w.got = s.pool.drainSize := by
  obtain ⟨st, hst, hasks⟩ :=
    Option.bind_eq_some_iff.1 ((h.line_iff w.id _).1 (TokenPool.mem_line_of_mem hw))
  cases st with
  | acquiring => exact .inl ⟨hst, (Option.some.inj hasks).symm⟩
  | draining deadline => exact .inr ⟨deadline, hst, (Option.some.inj hasks).symm⟩
  | _ => cases hasks

/-- Who asks for tokens has a request in line. -/
theorem exists_waiter (h : s.Sound capacity called) (hst : s.status? id = some st)
    (hasks : st.asks? s.pool.drainSize = some n) :
    ∃ w, (w ∈ s.pool.served ∨ w ∈ s.pool.waiting) ∧ w.id = id ∧ w.missing + w.got = n := by
  refine TokenPool.mem_line_iff.1 ((h.line_iff id n).2 ?_)
  rw [hst, Option.bind_some, hasks]

theorem not_mem_held (h : s.Sound capacity called) (hst : s.status? id = some st) (hne : st ≠ .held) :
    id ∉ s.pool.held := by
  rw [h.held_iff, hst]
  exact fun heq => hne (Option.some.inj heq)

end Sound

/-! ## One turn -/

/-- A request that is taken out of the line. -/
theorem Leaves.without (h : s.Sound capacity called) (hst : s.status? id = some st) (hne : st ≠ .held)
    (hline : p.line = s.pool.line.filter (·.1 ≠ id)) (hheld : p.held = s.pool.held)
    (hcap : p.capacity = s.pool.capacity) (hbalanced : p.Balanced 0) (horder : p.InOrder called)
    (hshut : s.pool.closed = true → p.closed = true) (hout : status ≠ some .held)
    (hquiet : status.bind (·.asks? s.pool.drainSize) = none)
    (hreturned : status = some .drained ∨ status = some .timedOut → p.closed = true)
    (halone : status = some .drained → s.pool.held = []) : Leaves called s id p status where
  capacity_eq := hcap
  balanced := hbalanced
  inOrder := horder
  known _ := h.known id (by rw [hst]; exact Option.some_ne_none st)
  held_nodup := hheld ▸ h.held_nodup
  held_self := by
    rw [hheld]
    exact iff_of_false (h.not_mem_held hst hne) hout
  held_others _ _ := by rw [hheld]
  line_self n := by
    rw [hline, List.mem_filter, hquiet]
    exact iff_of_false (by simp) nofun
  line_others other hother n := by simp [hline, hother]
  shut hc := ⟨hshut hc, hheld ▸ List.Subset.refl _⟩
  returned := hreturned
  alone hd := hheld.trans (halone hd)

/-- A client that goes away or finds the pool closed neither holds a token nor asks for one. -/
theorem idle_of_out (hout : status = none ∨ status = some .refused ∨ status = some .timedOut) (n : Nat) :
    status ≠ some .held ∧ status ≠ some .drained ∧ status.bind (·.asks? n) = none := by
  rcases hout with rfl | rfl | rfl <;> exact ⟨nofun, nofun, rfl⟩

/-- A request that is withdrawn. -/
theorem Leaves.cancel (h : s.Sound capacity called) (hst : s.status? id = some st)
    (hasks : st.asks? s.pool.drainSize = some n)
    (hout : status = none ∨ status = some .refused ∨ status = some .timedOut)
    (hreturned : status = some .timedOut → s.pool.closed = true) :
    Leaves called s id (s.pool.cancel id) status := by
  obtain ⟨hheld, hdrained, hquiet⟩ := idle_of_out hout s.pool.drainSize
  obtain ⟨w, hw, rfl, -⟩ := h.exists_waiter hst hasks
  have hcancel := h.inOrder.cancel_eq h.nodup hw
  refine Leaves.without h hst ?_ ?_ (TokenPool.held_cancel _ _) (TokenPool.capacity_cancel _ _) ?_ ?_ ?_
    hheld hquiet ?_ (absurd · hdrained)
  · rintro rfl
    cases hasks
  · rw [hcancel, (h.inOrder.without w.id).line_give, TokenPool.line_without]
  · rw [hcancel]
    exact (h.inOrder.balanced_without h.nodup h.balanced hw).give
  · rw [hcancel]
    exact (h.inOrder.without w.id).give w.got
  · exact fun hc => (TokenPool.closed_cancel _ _).trans hc
  · intro hr
    rw [TokenPool.closed_cancel]
    exact hreturned (hr.resolve_left hdrained)

/-- A client that gets in line. -/
theorem Leaves.queues (h : s.Sound capacity called) (hnew : id ∉ called) (hfree : s.pool.free < n)
    (hc : s.pool.closed = false) (hasks : st.asks? s.pool.drainSize = some n) :
    Leaves (called ++ [id]) s id
      { s.pool with free := 0, waiting := s.pool.waiting ++ [⟨id, n - s.pool.free, s.pool.free⟩] }
      (some st) where
  capacity_eq := rfl
  balanced := h.balanced.queue n id
  inOrder := h.inOrder.queue hfree id
  known _ := List.mem_append_right _ List.mem_cons_self
  held_nodup := h.held_nodup
  held_self := by
    refine iff_of_false (h.not_mem_of_new hnew).1 fun heq => ?_
    rw [Option.some.inj heq] at hasks
    cases hasks
  held_others _ _ := Iff.rfl
  line_self k := by
    rw [TokenPool.line_queue s.pool hfree, List.mem_append, List.mem_singleton, Option.bind_some, hasks]
    refine ⟨fun hmem => ?_, fun hn => .inr (by rw [Option.some.inj hn])⟩
    rcases hmem with hmem | heq
    · exact absurd hmem ((h.not_mem_of_new hnew).2 k)
    · rw [(Prod.mk.inj heq).2]
  line_others other hother k := by
    rw [TokenPool.line_queue s.pool hfree, List.mem_append, List.mem_singleton]
    exact or_iff_left fun heq => hother (Prod.mk.inj heq).1
  shut hclosed := absurd hclosed (by rw [hc]; exact Bool.false_ne_true)
  returned hr := by
    rcases hr with hr | hr <;> (rw [Option.some.inj hr] at hasks; cases hasks)
  alone hd := by
    rw [Option.some.inj hd] at hasks
    cases hasks

/-- A client that has nothing to do with the pool. -/
theorem Leaves.same (h : s.Sound capacity called) (later : List String)
    (hknown : status ≠ none → id ∈ called ++ later)
    (hheld : id ∉ s.pool.held) (hline : ∀ n, (id, n) ∉ s.pool.line)
    (hout : status = none ∨ status = some .refused ∨ status = some .timedOut)
    (hreturned : status = some .timedOut → s.pool.closed = true) :
    Leaves (called ++ later) s id s.pool status where
  capacity_eq := rfl
  balanced := h.balanced
  inOrder := h.inOrder.mono later
  known := hknown
  held_nodup := h.held_nodup
  held_self := iff_of_false hheld (idle_of_out hout 0).1
  held_others _ _ := Iff.rfl
  line_self n := by
    rw [(idle_of_out hout _).2.2]
    exact iff_of_false (hline n) nofun
  line_others _ _ _ := Iff.rfl
  shut hc := ⟨hc, List.Subset.refl _⟩
  returned hr := hr.elim (fun hd => absurd hd (idle_of_out hout 0).2.1) hreturned
  alone hd := absurd hd (idle_of_out hout 0).2.1

theorem nodup_held_append (h : s.Sound capacity called) (hid : id ∉ s.pool.held) :
    (s.pool.held ++ [id]).Nodup := by
  rw [List.nodup_append]
  refine ⟨h.held_nodup, List.nodup_singleton id, fun holder hh other hother heq => ?_⟩
  rw [heq, List.mem_singleton.1 hother] at hh
  exact hid hh

/-- A client that takes a free token. -/
theorem Leaves.takes (h : s.Sound capacity called) (hnew : id ∉ called) (hfree : 0 < s.pool.free)
    (hc : s.pool.closed = false) :
    Leaves (called ++ [id]) s id
      { s.pool with free := s.pool.free - 1, held := s.pool.held ++ [id] } (some .held) where
  capacity_eq := rfl
  balanced := by
    have hb := h.balanced
    simp only [TokenPool.Balanced, List.length_append, List.length_singleton] at hb ⊢
    omega
  inOrder := h.inOrder.take hfree id
  known _ := List.mem_append_right _ List.mem_cons_self
  held_nodup := nodup_held_append h (h.not_mem_of_new hnew).1
  held_self := by simp
  held_others other hother := by simp [hother]
  line_self n := iff_of_false ((h.not_mem_of_new hnew).2 n) nofun
  line_others _ _ _ := Iff.rfl
  shut hclosed := absurd hclosed (by rw [hc]; exact Bool.false_ne_true)
  returned hr := by simp at hr
  alone hd := by simp at hd

/-- A client that learns of its token. -/
theorem Leaves.learns (h : s.Sound capacity called) (hst : s.status? w.id = some .acquiring)
    (hw : w ∈ s.pool.served) (hc : s.pool.closed = false) :
    Leaves called s w.id ((s.pool.without w.id).hold w.id) (some .held) where
  capacity_eq := rfl
  balanced := by
    have hasks := Option.some.inj (h.asks?_of_mem (.inl hw) hst)
    have hfull := h.inOrder.full w hw
    have hgot : w.got = 1 := by omega
    have hb := h.inOrder.balanced_without h.nodup h.balanced (.inl hw)
    rw [hgot, Nat.add_comm] at hb
    exact hb.hold w.id
  inOrder := h.inOrder.hold hw
  known _ := h.known w.id (by rw [hst]; exact Option.some_ne_none _)
  held_nodup := nodup_held_append h (h.not_mem_held hst (by simp))
  held_self := by simp [TokenPool.hold]
  held_others other hother := by simp [TokenPool.hold, TokenPool.without, hother]
  line_self n := by
    refine iff_of_false ?_ (by simp [ClientStatus.asks?])
    change _ ∉ (s.pool.without w.id).line
    rw [TokenPool.line_without]
    simp
  line_others other hother n := by
    change _ ∈ (s.pool.without w.id).line ↔ _
    rw [TokenPool.line_without]
    simp [hother]
  shut hclosed := absurd hclosed (by rw [hc]; exact Bool.false_ne_true)
  returned hr := by simp at hr
  alone hd := by simp at hd

/-- A drain that learns that it has all tokens. -/
theorem Leaves.drains (h : s.Sound capacity called) {deadline : Nat}
    (hst : s.status? w.id = some (.draining deadline)) (hw : w ∈ s.pool.served) :
    Leaves called s w.id (s.pool.without w.id).finishDrain (some .drained) := by
  have hasks := Option.some.inj (h.asks?_of_mem (.inl hw) hst)
  have hgot : w.got = s.pool.drainSize := by
    rw [hasks, h.inOrder.full w hw, Nat.zero_add]
  refine Leaves.without h hst nofun ?_ rfl rfl ?_ ?_ (fun _ => rfl) nofun rfl (fun _ => rfl)
    fun _ => ?_
  · exact ((h.inOrder.without w.id).line_give _).trans (TokenPool.line_without _ _)
  · exact TokenPool.Balanced.finishDrain
      (hgot ▸ h.inOrder.balanced_without h.nodup h.balanced (.inl hw) :
        (s.pool.without w.id).Balanced (s.pool.drainSize + 0))
  · exact ((h.inOrder.without w.id).give _).close
  · exact (h.balanced.all_got hw (hgot.trans h.drainSize_eq)).1

/-- A drain that finds all tokens free. -/
theorem Leaves.drainsAtOnce (h : s.Sound capacity called) (hnew : id ∉ called)
    (hfree : s.pool.drainSize ≤ s.pool.free) :
    Leaves (called ++ [id]) s id
      { s.pool with free := s.pool.free - s.pool.drainSize }.finishDrain (some .drained) := by
  have hb := h.balanced
  have hsize := h.drainSize_eq
  have horder := (h.inOrder.mono [id]).spend s.pool.drainSize
  have hline : ({ s.pool with free := s.pool.free - s.pool.drainSize }.finishDrain : TokenPool String).line =
      s.pool.line := horder.line_give s.pool.drainSize
  exact {
    capacity_eq := rfl
    balanced := TokenPool.Balanced.finishDrain (hb.spend hfree)
    inOrder := (horder.give _).close
    known := fun _ => List.mem_append_right _ List.mem_cons_self
    held_nodup := h.held_nodup
    held_self := iff_of_false (h.not_mem_of_new hnew).1 nofun
    held_others := fun _ _ => Iff.rfl
    line_self := fun n => iff_of_false (hline ▸ (h.not_mem_of_new hnew).2 n) nofun
    line_others := fun _ _ _ => by rw [hline]
    shut := fun _ => ⟨rfl, List.Subset.refl _⟩
    returned := fun _ => rfl
    alone := fun _ => by
      rw [TokenPool.Balanced] at hb
      exact List.eq_nil_of_length_eq_zero (by omega : s.pool.held.length = 0) }

/-- A drain that has waited too long. -/
theorem Leaves.expires (h : s.Sound capacity called) {deadline : Nat}
    (hst : s.status? id = some (.draining deadline)) :
    Leaves called s id (s.pool.cancel id).close (some .timedOut) := by
  have hleft : Leaves called s id (s.pool.cancel id) none := .cancel h hst rfl (.inl rfl) nofun
  exact {
    hleft with
    balanced := hleft.balanced.close
    inOrder := hleft.inOrder.close
    known := fun _ => h.known id (by rw [hst]; exact Option.some_ne_none _)
    held_self := iff_of_false (fun hh => nomatch hleft.held_self.1 hh) nofun
    line_self := fun n => iff_of_false (fun hl => nomatch (hleft.line_self n).1 hl) nofun
    shut := fun hc => ⟨rfl, (hleft.shut hc).2⟩
    returned := fun _ => rfl
    alone := nofun }

/-- A client that gives its token back. -/
theorem Leaves.givesBack (h : s.Sound capacity called) (hst : s.status? id = some .held) :
    Leaves called s id (s.pool.release id) none := by
  have hmem : id ∈ s.pool.held := (h.held_iff id).2 hst
  have hrelease : s.pool.release id = { s.pool with held := s.pool.held.erase id }.give 1 := by
    rw [TokenPool.release, if_pos hmem]
  have hline : (s.pool.release id).line = s.pool.line := by
    rw [hrelease, (h.inOrder.erase id).line_give]
    rfl
  exact {
    capacity_eq := TokenPool.capacity_release _ _
    balanced := h.balanced.release id
    inOrder := by
      rw [hrelease]
      exact (h.inOrder.erase id).give 1
    known := fun hne => absurd rfl hne
    held_nodup := by
      rw [TokenPool.held_release]
      exact h.held_nodup.erase id
    held_self := by
      rw [TokenPool.held_release]
      exact iff_of_false h.held_nodup.not_mem_erase (by simp)
    held_others := fun other hother => by
      rw [TokenPool.held_release]
      exact List.mem_erase_of_ne hother
    line_self := fun n => by
      rw [hline, h.line_iff, hst]
      rfl
    line_others := fun _ _ _ => by rw [hline]
    shut := fun hc => by
      rw [TokenPool.closed_release, TokenPool.held_release]
      exact ⟨hc, List.erase_subset⟩
    returned := fun hr => by simp at hr
    alone := fun hd => by simp at hd }

/-- What any turn leaves, where who calls has not called before. -/
theorem leaves_of_turn (h : s.Sound capacity called) (ht : s.Turn id m p status)
    (hnew : (called ++ m.call?.toList).Nodup) : Leaves (called ++ m.call?.toList) s id p status := by
  have hcaller : m.call? = some id → id ∉ called := fun hm hmem => by
    rw [hm] at hnew
    exact List.disjoint_of_nodup_append hnew hmem List.mem_cons_self
  cases ht with
  | takes hm hc hfree =>
    rcases hm with rfl | rfl <;> exact .takes h (hcaller rfl) hfree hc
  | waits hc hfree => exact .queues h (hcaller rfl) hfree hc rfl
  | refused hc =>
    obtain ⟨hheld, hline⟩ := h.not_mem_of_new (hcaller rfl)
    exact .same h _ (fun _ => List.mem_append_right _ List.mem_cons_self) hheld hline
      (.inr (.inl rfl)) fun _ => hc
  | drainsAtOnce millis hc hfree => exact .drainsAtOnce h (hcaller rfl) hfree
  | drainWaits millis hc hfree => exact .queues h (hcaller rfl) hfree hc rfl
  | drainRefused millis hc =>
    obtain ⟨hheld, hline⟩ := h.not_mem_of_new (hcaller rfl)
    exact .same h _ (fun _ => List.mem_append_right _ List.mem_cons_self) hheld hline
      (.inr (.inr rfl)) fun _ => hc
  | @learns w hst hc hw hid =>
    subst hid
    rw [h.inOrder.filter_served_eq h.nodup hw]
    simpa [Move.call?] using Leaves.learns h hst hw hc
  | @drains w deadline hst hc hw hid =>
    subst hid
    rw [h.inOrder.filter_served_eq h.nodup hw]
    simpa [Move.call?] using Leaves.drains h hst hw
  | shut hst hc =>
    have hleft : Leaves called s id (s.pool.cancel id) (some .refused) :=
      .cancel h hst rfl (.inr (.inl rfl)) nofun
    simpa [Move.call?] using hleft
  | drainShut hst hc =>
    have hleft : Leaves called s id (s.pool.cancel id) (some .timedOut) :=
      .cancel h hst rfl (.inr (.inr rfl)) fun _ => hc
    simpa [Move.call?] using hleft
  | expires hst hc hs hd => simpa [Move.call?] using Leaves.expires h hst
  | givesBack hst => simpa [Move.call?] using Leaves.givesBack h hst
  | @givesUp st hst hwaits =>
    have hasks : ∃ n, st.asks? s.pool.drainSize = some n := by
      rcases hwaits with rfl | ⟨deadline, rfl⟩ <;> exact ⟨_, rfl⟩
    obtain ⟨n, hasks⟩ := hasks
    have hleft : Leaves called s id (s.pool.cancel id) none := .cancel h hst hasks (.inl rfl) nofun
    simpa [Move.call?] using hleft
  | @forgotten st hst hidle =>
    have hasks : st ≠ .held ∧ st.asks? s.pool.drainSize = none := by
      rcases hidle with rfl | rfl | rfl <;> exact ⟨nofun, rfl⟩
    refine .same h _ (fun hne => absurd rfl hne) (h.not_mem_held hst hasks.1) (fun n hl => ?_)
      (.inl rfl) nofun
    rw [h.line_iff, hst, Option.bind_some, hasks.2] at hl
    cases hl

/-- A turn of one client leaves all that always holds. -/
theorem Sound.becomes (h : s.Sound capacity called) {later : List String}
    (hnew : (called ++ later).Nodup) (hl : Leaves (called ++ later) s id s'.pool status)
    (hb : s.Becomes s' id status) : s'.Sound capacity (called ++ later) where
  nodup := hnew
  capacity_eq := hl.capacity_eq.trans h.capacity_eq
  pos := hl.capacity_eq ▸ h.pos
  drainSize_eq := by
    rw [TokenPool.drainSize, hl.capacity_eq]
    exact h.drainSize_eq
  balanced := hl.balanced
  inOrder := hl.inOrder
  held_nodup := hl.held_nodup
  known other hne := by
    by_cases hother : other = id
    · subst hother
      exact hl.known (hb.self ▸ hne)
    · rw [hb.others other hother] at hne
      exact List.mem_append_left _ (h.known other hne)
  held_iff other := by
    by_cases hother : other = id
    · subst hother
      rw [hl.held_self, hb.self]
    · rw [hl.held_others other hother, hb.others other hother, h.held_iff]
  line_iff other n := by
    have hsize : s'.pool.drainSize = s.pool.drainSize := by
      rw [TokenPool.drainSize, hl.capacity_eq]
      rfl
    rw [hsize]
    by_cases hother : other = id
    · subst hother
      rw [hl.line_self, hb.self]
    · rw [hl.line_others other hother, hb.others other hother, h.line_iff]
  returned other hr := by
    by_cases hother : other = id
    · subst hother
      exact hl.returned (hb.self ▸ hr)
    · rw [hb.others other hother] at hr
      exact (hl.shut (h.returned other hr)).1
  alone other hd := by
    by_cases hother : other = id
    · subst hother
      exact hl.alone (hb.self ▸ hd)
    · rw [hb.others other hother] at hd
      have hheld := (hl.shut (h.returned other (.inl hd))).2
      rw [h.alone other hd] at hheld
      exact List.subset_nil.1 hheld

/-! ## Runs -/

theorem sound_start (hcap : capacity ≤ 4294967295) : (start capacity).Sound (max capacity 1) [] where
  nodup := .nil
  capacity_eq := rfl
  pos := Nat.lt_of_lt_of_le Nat.zero_lt_one (Nat.le_max_right _ _)
  drainSize_eq := Nat.min_eq_left (Nat.max_le.2 ⟨hcap, by decide⟩)
  balanced := TokenPool.balanced_ofCapacity capacity
  inOrder := TokenPool.inOrder_ofCapacity capacity
  held_nodup := .nil
  known _ hne := absurd rfl hne
  held_iff _ := iff_of_false nofun nofun
  line_iff _ _ := iff_of_false nofun nofun
  returned _ hr := hr.elim nofun nofun
  alone _ hd := nomatch hd

/-- Who calls later does not matter before. -/
theorem Sound.mono (h : s.Sound capacity called) {later : List String} (hnew : (called ++ later).Nodup) :
    s.Sound capacity (called ++ later) :=
  { h with
    nodup := hnew
    inOrder := h.inOrder.mono later
    known := fun id hne => List.mem_append_left _ (h.known id hne) }

theorem Sound.perform (h : s.Sound capacity called) (m : Move)
    (hnew : (called ++ m.call?.toList).Nodup) :
    (s.perform m).Sound capacity (called ++ m.call?.toList) := by
  rcases perform_cases s m with ⟨millis, rfl⟩ | hs | ⟨id, status, ht, hb⟩
  · have hsame := h.mono hnew
    exact { hsame with }
  · rw [hs]
    exact h.mono hnew
  · exact h.becomes hnew (leaves_of_turn h ht hnew) hb

theorem Sound.run (h : s.Sound capacity called) (moves : List Move)
    (hnew : (called ++ calls moves).Nodup) : (s.run moves).Sound capacity (called ++ calls moves) := by
  induction moves generalizing s called with
  | nil => simpa [calls, PoolClients.run] using h
  | cons m moves ih =>
    rw [calls_cons, ← List.append_assoc] at hnew ⊢
    exact ih (h.perform m (List.nodup_append.1 hnew).1) hnew

/-- What always holds of a pool and its clients, whatever moves they make. -/
theorem sound_run (hcap : capacity ≤ 4294967295) {moves : List Move} (hnew : (calls moves).Nodup) :
    ((start capacity).run moves).Sound (max capacity 1) (calls moves) :=
  (sound_start hcap).run moves hnew

/-! ## After a drain -/

/-- A closed pool stays closed, and nobody gets a token from it. -/
def Shut (s s' : PoolClients) : Prop := s'.pool.closed = true ∧ s'.pool.held ⊆ s.pool.held

theorem Sound.shut_perform (h : s.Sound capacity called) (hc : s.pool.closed = true) (m : Move)
    (hnew : (called ++ m.call?.toList).Nodup) : s.Shut (s.perform m) := by
  rcases perform_cases s m with ⟨millis, rfl⟩ | hs | ⟨id, status, ht, -⟩
  · exact ⟨hc, List.Subset.refl _⟩
  · rw [hs]
    exact ⟨hc, List.Subset.refl _⟩
  · exact (leaves_of_turn h ht hnew).shut hc

theorem Sound.shut_run (h : s.Sound capacity called) (hc : s.pool.closed = true) (moves : List Move)
    (hnew : (called ++ calls moves).Nodup) : s.Shut (s.run moves) := by
  induction moves generalizing s called with
  | nil => exact ⟨hc, List.Subset.refl _⟩
  | cons m moves ih =>
    rw [calls_cons, ← List.append_assoc] at hnew
    have hfirst := (List.nodup_append.1 hnew).1
    obtain ⟨hclosed, hheld⟩ := h.shut_perform hc m hfirst
    obtain ⟨hclosed', hheld'⟩ := ih (h.perform m hfirst) hclosed hnew
    exact ⟨hclosed', List.Subset.trans hheld' hheld⟩

end PoolClients

end ConsumerGroup
