import ConsumerGroup.Proofs.TokenPool.Sound
import Mathlib.Data.List.Induction

/-!
# One drain of a pool

A client drains a pool, once and nobody else: what becomes of that depends on those who had a token or
waited for one when it began.

* `PoolClients.IsOwner` — a client has a token or waits for one.
* `Sound.no_owner_of_served`, `Sound.exists_owner_of_not_served` — the drain has all tokens exactly when
  all who called before it are gone.
* `OneDrain` — such a drain; `Stage` — what has become of it after some moves: `OneDrain.stage`.
-/

namespace ConsumerGroup

/-- Of two calls the second is not among those before the first. -/
theorem mem_of_pair_sublist {α : Type} {a b : α} {l l' : List α} (hl : (l ++ b :: l').Nodup)
    (h : [a, b].Sublist (l ++ b :: l')) : a ∈ l := by
  rcases List.mem_append.1 (h.subset List.mem_cons_self) with ha | ha
  · exact ha
  · rcases List.mem_cons.1 ha with rfl | ha
    · exact absurd (h.nodup hl) (by simp)
    · have hswap : [b, a].Sublist (l ++ b :: l') :=
        ((List.singleton_sublist.2 ha).cons_cons b).trans (List.sublist_append_right l _)
      exact absurd hswap (not_sublist_swap hl h)

namespace PoolClients

/-- A client has a token or waits for one. -/
def IsOwner (s : PoolClients) (id : String) : Prop :=
  s.status? id = some .held ∨ s.status? id = some .acquiring

instance (s : PoolClients) (id : String) : Decidable (s.IsOwner id) :=
  inferInstanceAs (Decidable (_ ∨ _))

variable {s s₀ : PoolClients} {d id o : String} {status : Option ClientStatus} {m : Move}
  {p : TokenPool String} {called : List String} {capacity deadline : Nat} {w : Waiter String}

namespace Sound

/-- While all tokens are free nobody has one or waits for one. -/
theorem no_owner_of_free (h : s.Sound capacity called) (hfree : s.pool.drainSize ≤ s.pool.free) :
    ¬ s.IsOwner o := by
  have hb := h.balanced
  have hsize := h.drainSize_eq
  have hpos := h.pos
  rw [TokenPool.Balanced] at hb
  have hwaiting := h.inOrder.waiting_eq_nil (by omega)
  rintro (hst | hst)
  · have hlen := List.length_pos_of_mem ((h.held_iff o).2 hst)
    omega
  · obtain ⟨w, hw, -, hsum⟩ := h.exists_waiter hst rfl
    have hserved : w ∈ s.pool.served := hw.resolve_right (by rw [hwaiting]; exact List.not_mem_nil)
    have hgot := TokenPool.gotBy_le_of_mem hserved
    have hfull := h.inOrder.full w hserved
    omega

/-- A drain that has all tokens has them after all who called before. -/
theorem no_owner_of_served (h : s.Sound capacity called) (hst : s.status? w.id = some (.draining deadline))
    (hw : w ∈ s.pool.served) (hbefore : [o, w.id].Sublist called) : ¬ s.IsOwner o := by
  have hfull := h.inOrder.full w hw
  have hall : w.got = s.pool.capacity := by
    have hasks := Option.some.inj (h.asks?_of_mem (.inl hw) hst)
    have hsize := h.drainSize_eq
    omega
  rintro (ho | ho)
  · have hheld := (h.held_iff o).2 ho
    rw [(h.balanced.all_got hw hall).1] at hheld
    cases hheld
  · obtain ⟨w', hw', rfl, hsum⟩ := h.exists_waiter ho rfl
    rcases hw' with hw' | hw'
    · have hid := h.inOrder.eq_served h.nodup h.balanced hw hall hw' (by omega)
      rw [hid, hst] at ho
      cases ho
    · exact not_sublist_swap h.nodup hbefore (h.inOrder.served_ahead hw hw')

/-- If a drain has to wait, somebody who called before has a token or waits for one. -/
theorem exists_owner_of_not_served (h : s.Sound capacity called)
    (hst : s.status? d = some (.draining deadline))
    (honly : ∀ id deadline, s.status? id = some (.draining deadline) → id = d)
    (hwaits : ∀ w ∈ s.pool.served, w.id ≠ d) : ∃ o, [o, d].Sublist called ∧ s.IsOwner o := by
  by_contra hnone
  obtain ⟨w, hw, rfl, hsum⟩ := h.exists_waiter hst rfl
  have hw : w ∈ s.pool.waiting := hw.resolve_left fun hserved => hwaits w hserved rfl
  obtain ⟨first, later, hsplit⟩ := List.append_of_mem hw
  -- Who stands in line before the drain would be such a client.
  have hline := h.inOrder.line_sublist
  rw [TokenPool.map_fst_line, hsplit, List.map_append, ← List.append_assoc, ← List.map_append] at hline
  have hahead : ∀ w' ∈ s.pool.served ++ first, False := by
    intro w' hw'
    have hbefore : [w'.id, w.id].Sublist called :=
      (pair_sublist_append (List.mem_map_of_mem hw') (List.mem_map_of_mem List.mem_cons_self)).trans hline
    have hmem : w' ∈ s.pool.served ∨ w' ∈ s.pool.waiting := by
      rw [hsplit]
      exact (List.mem_append.1 hw').imp id (List.mem_append_left _)
    rcases h.status_of_mem hmem with ⟨hst', -⟩ | ⟨deadline', hst', -⟩
    · exact hnone ⟨w'.id, hbefore, .inr hst'⟩
    · rw [honly _ _ hst'] at hbefore
      exact absurd (hbefore.nodup h.nodup) (by simp)
  obtain ⟨hserved, rfl⟩ := List.append_eq_nil_iff.1
    (List.eq_nil_iff_forall_not_mem.2 hahead)
  have hheld : s.pool.held = [] := by
    refine List.eq_nil_iff_forall_not_mem.2 fun holder hh => hnone ⟨holder, ?_, ?_⟩
    · exact h.inOrder.ahead holder hh w hw
    · exact .inl ((h.held_iff holder).1 hh)
  exact h.inOrder.served_of_first h.balanced hheld (hsum.trans h.drainSize_eq) hserved hsplit

end Sound

/-! ## What other moves do -/

/-- A client that has called before gets a token only if it waits for one. -/
theorem acquiring_of_turn (ht : s.Turn id m p status) (hcall : m.call? ≠ some id)
    (ho : status = some .held ∨ status = some .acquiring) : s.status? id = some .acquiring := by
  cases ht with
  | takes hm => rcases hm with rfl | rfl <;> exact absurd rfl hcall
  | waits => exact absurd rfl hcall
  | learns hst => exact hst
  | _ => rcases ho with ho | ho <;> cases ho

/-- Who has called before does not come to a token or wait for one anew. -/
theorem isOwner_of_perform (hcall : m.call? ≠ some o) (ho : (s.perform m).IsOwner o) : s.IsOwner o := by
  rcases perform_cases s m with ⟨millis, rfl⟩ | hs | ⟨id, status, ht, hb⟩
  · exact ho
  · rwa [hs] at ho
  · by_cases hid : o = id
    · subst hid
      rw [IsOwner, hb.self] at ho
      exact .inr (acquiring_of_turn ht hcall ho)
    · rwa [IsOwner, hb.others o hid] at ho

/-- A client waits for all tokens from when it begins to drain. -/
theorem drain_of_turn (ht : s.Turn id m p status) (hst : status = some (.draining deadline)) :
    ∃ millis, m = .drain id millis := by
  cases ht with
  | drainWaits millis => exact ⟨millis, rfl⟩
  | _ => cases hst

/-- Who drains has begun to, or did so before. -/
theorem draining_of_perform (hdrain : ∀ id millis, m ≠ .drain id millis)
    (hst : (s.perform m).status? id = some (.draining deadline)) :
    s.status? id = some (.draining deadline) := by
  rcases perform_cases s m with ⟨millis, rfl⟩ | hs | ⟨id', status, ht, hb⟩
  · exact hst
  · rwa [hs] at hst
  · by_cases hid : id = id'
    · subst hid
      obtain ⟨millis, rfl⟩ := drain_of_turn ht (hb.self ▸ hst)
      exact absurd rfl (hdrain id millis)
    · rwa [hb.others id hid] at hst

/-- Nobody but a drain closes the pool. -/
theorem closed_of_turn (ht : s.Turn id m p status) (hdrain : ∀ id millis, m ≠ .drain id millis)
    (hst : ∀ deadline, s.status? id ≠ some (.draining deadline)) : p.closed = s.pool.closed := by
  cases ht with
  | drainsAtOnce millis => exact absurd rfl (hdrain id millis)
  | drains hst' => exact absurd hst' (hst _)
  | drainShut hst' => exact absurd hst' (hst _)
  | expires hst' => exact absurd hst' (hst _)
  | shut => exact TokenPool.closed_cancel _ _
  | givesBack => exact TokenPool.closed_release _ _
  | givesUp => exact TokenPool.closed_cancel _ _
  | _ => rfl

theorem now_le_perform (s : PoolClients) (m : Move) : s.now ≤ (s.perform m).now := by
  rcases perform_cases s m with ⟨millis, rfl⟩ | hs | ⟨id, status, -, hb⟩
  · exact Nat.le_add_right _ _
  · exact Nat.le_of_eq (congrArg now hs.symm)
  · exact Nat.le_of_eq hb.now.symm

theorem now_le_run (s : PoolClients) (moves : List Move) : s.now ≤ (s.run moves).now := by
  induction moves generalizing s with
  | nil => exact Nat.le_refl _
  | cons m moves ih => exact Nat.le_trans (now_le_perform s m) (ih _)

theorem isOwner_of_run {moves : List Move} (hcalls : o ∉ calls moves) (ho : (s.run moves).IsOwner o) :
    s.IsOwner o := by
  induction moves generalizing s with
  | nil => exact ho
  | cons m moves ih =>
    rw [calls_cons, List.mem_append, not_or] at hcalls
    refine isOwner_of_perform (fun hcall => hcalls.1 ?_) (ih hcalls.2 ho)
    rw [hcall]
    exact List.mem_cons_self

theorem draining_of_run {moves : List Move} (hdrain : ∀ id millis, .drain id millis ∉ moves)
    (hst : (s.run moves).status? id = some (.draining deadline)) :
    s.status? id = some (.draining deadline) := by
  induction moves generalizing s with
  | nil => exact hst
  | cons m moves ih =>
    refine draining_of_perform (fun id' millis hm => hdrain id' millis ?_)
      (ih (fun id' millis hmem => hdrain id' millis (List.mem_cons_of_mem m hmem)) hst)
    exact hm ▸ List.mem_cons_self

/-! ## Before the drain -/

/-- Nobody has drained the pool yet. -/
structure Undrained (s : PoolClients) : Prop where
  /-- it is open -/
  isOpen : s.pool.closed = false
  /-- and nobody is at it -/
  nobody : ∀ id deadline, s.status? id ≠ some (.draining deadline)

theorem undrained_start (capacity : Nat) : (start capacity).Undrained := ⟨rfl, nofun⟩

theorem Undrained.perform (h : s.Undrained) (hdrain : ∀ id millis, m ≠ .drain id millis) :
    (s.perform m).Undrained where
  isOpen := by
    rcases perform_cases s m with ⟨millis, rfl⟩ | hs | ⟨id, status, ht, -⟩
    · exact h.isOpen
    · rw [hs, h.isOpen]
    · exact (closed_of_turn ht hdrain (h.nobody id)).trans h.isOpen
  nobody id deadline hst := h.nobody id deadline (draining_of_perform hdrain hst)

theorem Undrained.run (h : s.Undrained) {moves : List Move}
    (hdrain : ∀ id millis, .drain id millis ∉ moves) : (s.run moves).Undrained := by
  induction moves generalizing s with
  | nil => exact h
  | cons m moves ih =>
    exact ih (h.perform fun id millis hm => hdrain id millis (hm ▸ List.mem_cons_self))
      fun id millis hmem => hdrain id millis (List.mem_cons_of_mem m hmem)

/-! ## The drain -/

/-- How a drain begins. -/
theorem begin_of_turn {millis : Nat} (ht : s.Turn id (.drain d millis) p status)
    (hc : s.pool.closed = false) :
    id = d ∧ (status = some .drained ∧ s.pool.drainSize ≤ s.pool.free ∨
      status = some (.draining (s.now + millis)) ∧ p.closed = false) := by
  cases ht with
  | takes hm => rcases hm with hm | hm <;> cases hm
  | drainsAtOnce _ _ hfree => exact ⟨rfl, .inl ⟨rfl, hfree⟩⟩
  | drainWaits => exact ⟨rfl, .inr ⟨rfl, hc⟩⟩
  | drainRefused _ hclosed => exact absurd hclosed (by rw [hc]; exact Bool.false_ne_true)

/-- How a drain that waits goes on, unless it is given up: it has all tokens, or its time is up. -/
theorem go_on_of_turn (ht : s.Turn d m p status) (hst : s.status? d = some (.draining deadline))
    (hc : s.pool.closed = false) (hcall : m.call? ≠ some d) (hleave : m ≠ .leave d) :
    (status = some .drained ∧ ∃ w ∈ s.pool.served, w.id = d) ∨
      (status = some .timedOut ∧ deadline ≤ s.now ∧ ∀ w ∈ s.pool.served, w.id ≠ d) := by
  have hclosed : ¬ s.pool.closed = true := by rw [hc]; exact Bool.false_ne_true
  cases ht with
  | takes hm => rcases hm with rfl | rfl <;> exact absurd rfl hcall
  | drains _ _ hw hid => exact .inl ⟨rfl, _, hw, hid⟩
  | expires hst' _ hs hd =>
    rw [hst] at hst'
    cases hst'
    exact .inr ⟨rfl, hd, hs⟩
  | learns hst' =>
    rw [hst] at hst'
    cases hst'
  | shut _ hc' => exact absurd hc' hclosed
  | drainShut _ hc' => exact absurd hc' hclosed
  | givesBack => exact absurd rfl hleave
  | givesUp => exact absurd rfl hleave
  | forgotten => exact absurd rfl hleave
  | _ => exact absurd rfl hcall

/-- A drain that has returned does nothing more, unless it is forgotten. -/
theorem not_turn_of_returned (hst : s.status? d = some .drained ∨ s.status? d = some .timedOut)
    (hcall : m.call? ≠ some d) (hleave : m ≠ .leave d) : ¬ s.Turn d m p status := by
  intro ht
  have hlook : ∀ {st : ClientStatus}, s.status? d = some st → st ≠ .drained → st ≠ .timedOut → False := by
    intro st hst' hdrained htimed
    rcases hst with hst | hst <;> rw [hst] at hst' <;> cases hst'
    · exact hdrained rfl
    · exact htimed rfl
  cases ht with
  | takes hm => rcases hm with rfl | rfl <;> exact absurd rfl hcall
  | learns hst' => exact hlook hst' nofun nofun
  | drains hst' => exact hlook hst' nofun nofun
  | shut hst' => exact hlook hst' nofun nofun
  | drainShut hst' => exact hlook hst' nofun nofun
  | expires hst' => exact hlook hst' nofun nofun
  | givesBack => exact absurd rfl hleave
  | givesUp => exact absurd rfl hleave
  | forgotten => exact absurd rfl hleave
  | _ => exact absurd rfl hcall

/-- So it stays as it is. -/
theorem status?_of_returned {st : ClientStatus} (hst : s.status? d = some st)
    (hreturned : st = .drained ∨ st = .timedOut) (hcall : m.call? ≠ some d) (hleave : m ≠ .leave d) :
    (s.perform m).status? d = some st := by
  rcases perform_cases s m with ⟨millis, rfl⟩ | hs | ⟨id, status, ht, hb⟩
  · exact hst
  · rwa [hs]
  · by_cases hid : d = id
    · subst hid
      refine absurd ht (not_turn_of_returned ?_ hcall hleave)
      rw [hst]
      exact hreturned.imp (congrArg some) (congrArg some)
    · rwa [hb.others d hid]

/-- And goes on doing so. -/
theorem status?_run_of_returned {st : ClientStatus} {moves : List Move} (hst : s.status? d = some st)
    (hreturned : st = .drained ∨ st = .timedOut) (hcalls : d ∉ calls moves) (hleave : .leave d ∉ moves) :
    (s.run moves).status? d = some st := by
  induction moves generalizing s with
  | nil => exact hst
  | cons m moves ih =>
    rw [calls_cons, List.mem_append, not_or] at hcalls
    rw [List.mem_cons, not_or] at hleave
    refine ih (status?_of_returned hst hreturned (fun hcall => hcalls.1 ?_) fun hm => hleave.1 hm.symm)
      hcalls.2 hleave.2
    rw [hcall]
    exact List.mem_cons_self

/-- While a client drains no time passes beyond its deadline: it looks before. -/
def OnTime (s : PoolClients) (d : String) (moves : List Move) : Prop :=
  ∀ first millis rest deadline, moves = first ++ .wait millis :: rest →
    (s.run first).status? d = some (.draining deadline) → (s.run first).now + millis ≤ deadline

theorem OnTime.of_prefix {moves moves' : List Move} (h : s.OnTime d moves') (hpre : moves <+: moves') :
    s.OnTime d moves := by
  obtain ⟨later, rfl⟩ := hpre
  intro first millis rest deadline heq
  exact h first millis (rest ++ later) deadline (by rw [heq, List.append_assoc, List.cons_append])

/-- Where a drain is on time, it does not wait any longer after its deadline. -/
theorem OnTime.now_le {moves : List Move} (h : s.OnTime d moves)
    (hstart : s.status? d = some (.draining deadline) → s.now ≤ deadline)
    (hdrain : ∀ id millis, .drain id millis ∉ moves)
    (hst : (s.run moves).status? d = some (.draining deadline)) : (s.run moves).now ≤ deadline := by
  induction moves using List.reverseRecOn with
  | nil => exact hstart hst
  | append_singleton l m ih =>
    have hrun : s.run (l ++ [m]) = (s.run l).perform m := run_append s l [m]
    have hno : ∀ id millis, m ≠ .drain id millis := fun id millis hm =>
      hdrain id millis (hm ▸ List.mem_append_right _ List.mem_cons_self)
    rw [hrun] at hst ⊢
    have hst' := draining_of_perform hno hst
    rcases perform_cases (s.run l) m with ⟨millis, rfl⟩ | hs | ⟨id, status, -, hb⟩
    · exact h l millis [] deadline rfl hst'
    all_goals
      have hle := ih (h.of_prefix (List.prefix_append l [m]))
        (fun id millis hm => hdrain id millis (List.mem_append_left _ hm)) hst'
    · rwa [hs]
    · rwa [hb.now]

/-- What has become of a drain with that deadline after some moves, where the clients stood as in `s₀`
before it began and as in `s₁` right after that. -/
inductive Stage (s₀ s₁ : PoolClients) (d : String) (deadline : Nat) (after : List Move) : Prop where
  /-- it still waits -/
  | pending : (s₁.run after).status? d = some (.draining deadline) →
      (s₁.run after).pool.closed = false → Stage s₀ s₁ d deadline after
  /-- it has returned in time, and all are gone who were before it -/
  | drained : (s₁.run after).status? d = some .drained →
      (∀ o, s₀.IsOwner o → ¬ (s₁.run after).IsOwner o) → Stage s₀ s₁ d deadline after
  /-- its time was up while one of them was still there -/
  | timedOut (mid : List Move) : (s₁.run after).status? d = some .timedOut → mid <+: after →
      deadline ≤ (s₁.run mid).now → (∃ o, s₀.IsOwner o ∧ (s₁.run mid).IsOwner o) →
      Stage s₀ s₁ d deadline after

/-- The clients stand as in `s₀`, and nobody has drained the pool yet, when `d` begins to; nobody else does
in the moves after that, and `d` does not give up. -/
structure OneDrain (capacity : Nat) (called : List String) (s₀ : PoolClients) (d : String)
    (after : List Move) : Prop where
  /-- pool and clients agree -/
  sound : s₀.Sound capacity called
  /-- nobody has drained the pool -/
  undrained : s₀.Undrained
  /-- nobody calls twice -/
  nodup : (called ++ d :: calls after).Nodup
  /-- nobody else drains it -/
  alone : ∀ id millis, .drain id millis ∉ after
  /-- the drain is not given up -/
  remains : .leave d ∉ after

namespace OneDrain

variable {millis : Nat} {mid after : List Move}

theorem of_prefix (h : OneDrain capacity called s₀ d after) (hmid : mid <+: after) :
    OneDrain capacity called s₀ d mid where
  sound := h.sound
  undrained := h.undrained
  nodup := by
    obtain ⟨rest, rfl⟩ := hmid
    have hnodup := h.nodup
    rw [calls_append, ← List.cons_append, ← List.append_assoc] at hnodup
    exact (List.nodup_append.1 hnodup).1
  alone id millis hm := h.alone id millis (hmid.subset hm)
  remains hm := h.remains (hmid.subset hm)

/-- Pool and clients agree all the time. -/
theorem sound_run (h : OneDrain capacity called s₀ d after) :
    (s₀.run (.drain d millis :: after)).Sound capacity (called ++ d :: calls after) :=
  h.sound.run (.drain d millis :: after) h.nodup

/-- Nobody else is at it after a drain has begun. -/
theorem only (h : OneDrain capacity called s₀ d after)
    (hst : (s₀.run (.drain d millis :: after)).status? id = some (.draining deadline)) : id = d := by
  by_contra hid
  have hst' := draining_of_run h.alone hst
  obtain ⟨d', status, ht, hb⟩ := acts_drain s₀ d millis
  obtain ⟨rfl, -⟩ := begin_of_turn ht h.undrained.isOpen
  rw [hb.others id hid] at hst'
  exact h.undrained.nobody id deadline hst'

/-- Who has a token or waits for one when the drain begins has called before. -/
theorem called_before (h : OneDrain capacity called s₀ d after) (ho : s₀.IsOwner o) : o ∈ called := by
  refine h.sound.known o ?_
  rcases ho with ho | ho <;> (rw [ho]; exact Option.some_ne_none _)

theorem pair_sublist (h : OneDrain capacity called s₀ d after) (ho : s₀.IsOwner o) :
    [o, d].Sublist (called ++ d :: calls after) :=
  pair_sublist_append (h.called_before ho) List.mem_cons_self

/-- And does not call later. -/
theorem not_mem_calls (h : OneDrain capacity called s₀ d after) (ho : s₀.IsOwner o) :
    o ∉ calls after := fun hmem =>
  List.disjoint_of_nodup_append h.nodup (h.called_before ho) (List.mem_cons_of_mem d hmem)

/-- Who called before the drain and still has a token or waits for one did so when it began. -/
theorem isOwner_before (h : OneDrain capacity called s₀ d after)
    (hbefore : [o, d].Sublist (called ++ d :: calls after))
    (ho : (s₀.run (.drain d millis :: after)).IsOwner o) : s₀.IsOwner o := by
  have hlater : o ∉ calls (.drain d millis :: after) :=
    List.disjoint_of_nodup_append h.nodup (mem_of_pair_sublist h.nodup hbefore)
  exact isOwner_of_run hlater ho

/-- One move more: the drain has returned, or does so now, or still waits. -/
theorem stage_step {l : List Move} (h : OneDrain capacity called s₀ d (l ++ [m]))
    (hstage : Stage s₀ (s₀.perform (.drain d millis)) d deadline l) :
    Stage s₀ (s₀.perform (.drain d millis)) d deadline (l ++ [m]) := by
  have hl := h.of_prefix (List.prefix_append l [m])
  have hm : m ∈ l ++ [m] := List.mem_append_right _ List.mem_cons_self
  have hdrain : ∀ id millis, m ≠ .drain id millis := fun id millis heq => h.alone id millis (heq ▸ hm)
  have hleave : m ≠ .leave d := fun heq => h.remains (heq ▸ hm)
  have hcall : ∀ o ∈ called ++ d :: calls l, m.call? ≠ some o := by
    intro o ho hcalls
    have hnodup := h.nodup
    rw [calls_append, calls_singleton, hcalls, ← List.cons_append, ← List.append_assoc] at hnodup
    exact List.disjoint_of_nodup_append hnodup ho List.mem_cons_self
  have hd : m.call? ≠ some d := hcall d (List.mem_append_right _ List.mem_cons_self)
  generalize hs₁ : s₀.perform (.drain d millis) = s₁ at hstage ⊢
  have hrun : s₁.run (l ++ [m]) = (s₁.run l).perform m := run_append s₁ l [m]
  have hgone : ∀ o, s₀.IsOwner o → ¬ (s₁.run l).IsOwner o → ¬ (s₁.run (l ++ [m])).IsOwner o := by
    intro o ho hno hyes
    rw [hrun] at hyes
    exact hno (isOwner_of_perform (hcall o (List.mem_append_left _ (hl.called_before ho))) hyes)
  cases hstage with
  | drained hst hnone =>
    exact .drained (hrun ▸ status?_of_returned hst (.inl rfl) hd hleave) fun o ho => hgone o ho (hnone o ho)
  | timedOut mid hst hmid hnow ho =>
    exact .timedOut mid (hrun ▸ status?_of_returned hst (.inr rfl) hd hleave)
      (hmid.trans (List.prefix_append l [m])) hnow ho
  | pending hst hopen =>
    have hsound : (s₁.run l).Sound capacity (called ++ d :: calls l) := hs₁ ▸ hl.sound_run
    have honly : ∀ id deadline, (s₁.run l).status? id = some (.draining deadline) → id = d :=
      fun id deadline hst' => hl.only (hs₁ ▸ hst')
    rcases perform_cases (s₁.run l) m with ⟨millis, rfl⟩ | hs | ⟨id, status, ht, hb⟩
    · exact .pending (hrun ▸ hst) (hrun ▸ hopen)
    · rw [← hs, ← hrun] at hst hopen
      exact .pending hst hopen
    · by_cases hid : d = id
      · subst hid
        rcases go_on_of_turn ht hst hopen hd hleave with ⟨rfl, w, hw, rfl⟩ | ⟨rfl, hnow, hs⟩
        · exact .drained (hrun ▸ hb.self) fun o ho =>
            hgone o ho (hsound.no_owner_of_served hst hw (hl.pair_sublist ho))
        · obtain ⟨o, hbefore, ho⟩ := hsound.exists_owner_of_not_served hst honly hs
          exact .timedOut l (hrun ▸ hb.self) (List.prefix_append l [m]) hnow
            ⟨o, hl.isOwner_before hbefore (hs₁ ▸ ho), ho⟩
      · have hst' := (hb.others d hid).trans hst
        have hopen' := (closed_of_turn ht hdrain fun deadline' hst' =>
          hid (honly id deadline' hst').symm).trans hopen
        exact .pending (hrun ▸ hst') (hrun ▸ hopen')

/-- What becomes of the drain. -/
theorem stage (h : OneDrain capacity called s₀ d after) (millis : Nat) :
    Stage s₀ (s₀.perform (.drain d millis)) d (s₀.now + millis) after := by
  induction after using List.reverseRecOn with
  | nil =>
    obtain ⟨id, status, ht, hb⟩ := acts_drain s₀ d millis
    obtain ⟨rfl, ⟨rfl, hfree⟩ | ⟨rfl, hopen⟩⟩ := begin_of_turn ht h.undrained.isOpen
    · exact .drained hb.self fun o ho => absurd ho (h.sound.no_owner_of_free hfree)
    · exact .pending hb.self hopen
  | append_singleton l m ih => exact h.stage_step (ih (h.of_prefix (List.prefix_append l [m])))

end OneDrain

end PoolClients

end ConsumerGroup
