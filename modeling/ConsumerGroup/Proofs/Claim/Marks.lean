import ConsumerGroup.Proofs.Claim.InFlight

/-!
# Marks

When messages come in in order, the low watermark of a claim never falls, and all below it is settled.
Marks are what the low watermark comes to, so they are safe:

* `Ordered` — the offsets of the messages that come in increase, from zero or more.
* `Reachable.settled_of_lt_low` — what lies below the low watermark is settled.
* `Move.marks` — what a move marks is the low watermark it comes to, which lies above the one it
  started from.
* `Reachable.safe` — no mark lies above the low watermark; what was below a mark had been settled when
  it was made; and marks increase.
-/

namespace ConsumerGroup

/-- What starts with something that is not new is old. -/
theorem suffix_of_not_mem {α : Type} {a : α} {l new old : List α} (ha : a ∉ new)
    (h : a :: l <:+ new ++ old) : a :: l <:+ old := by
  induction new with
  | nil => exact h
  | cons b new ih =>
    rw [List.cons_append, List.suffix_cons_iff] at h
    rw [List.mem_cons, not_or] at ha
    exact ih ha.2 (h.resolve_left fun heq => ha.1 (List.cons.inj heq).1)

/-! ## The low watermark -/

namespace Tracker

variable {α : Type} {t t' : Tracker α} {o : Offset}

/-- Entering a message above the high watermark does not lower the low one. -/
theorem Exact.low_le_enter (h : t.Exact) (ho : t.high < o) (a : α) : t.low ≤ (t.enter o a).low := by
  have hnext := h.low_le_next
  rw [Tracker.enter]
  dsimp only
  split
  · rw [Offset.next] at hnext
    lia
  · exact Int.le_refl _

/-- Passing over a message above the high watermark raises the low one, and it is marked, or it does
nothing. -/
theorem Exact.low_skip (h : t.Exact) (ho : t.high < o) {due : Option Offset}
    (hs : t.skip o = (due, t')) : t.low ≤ t'.low ∧ ∀ c, due = some c → c = t'.low ∧ t.low < t'.low := by
  rw [skip_eq] at hs
  split at hs
  · rename_i hi
    obtain ⟨rfl, rfl⟩ := Prod.mk.inj hs
    have hlow := h.low_of_idle hi
    have hlt : t.low < (max t.high o).next := by
      rw [hlow]
      simp only [Offset.next]
      lia
    refine ⟨Int.le_of_lt hlt, fun c hc => ⟨(Option.some.inj hc).symm, hlt⟩⟩
  · obtain ⟨rfl, rfl⟩ := Prod.mk.inj hs
    refine ⟨Int.le_refl _, ?_⟩
    intro c hc
    cases hc

/-- Completing a message does not lower the low watermark; if it is marked, it is raised. -/
theorem Exact.low_complete (h : t.Exact) {c : Completion} (hc : t.complete o = some (c, t')) :
    t.low ≤ t'.low ∧ ∀ n, c.commit? = some n → n = t'.low ∧ t.low < t'.low := by
  obtain ⟨hmem, -⟩ := eq_of_complete hc
  have hle := h.low_le hmem
  by_cases ho : o = t.low
  · have hlt := h.lt_low_of_complete hc ho
    exact ⟨by lia, fun n hn => ⟨((h.commit?_eq_some_iff hc).1 hn).2, by lia⟩⟩
  · refine ⟨Int.le_of_eq (low_eq_of_complete hc (by lia)).symm, ?_⟩
    intro n hn
    exact absurd ((h.commit?_eq_some_iff hc).1 hn).1 ho

end Tracker

/-! ## Settled messages -/

/-- The message at offset `o` needs nothing more from claim number `i`: it was passed over, or a
handling of it was completed. -/
def Settled (i : Nat) (events : List Event) (o : Offset) : Prop :=
  .skipped i o ∈ events ∨ ∃ n, .entered i o n ∈ events ∧ .completed n ∈ events

theorem Settled.mono {i : Nat} {events events' : List Event} {o : Offset} (h : Settled i events o)
    (hsub : ∀ event ∈ events, event ∈ events') : Settled i events' o :=
  h.imp (hsub _) fun ⟨n, he, hc⟩ => ⟨n, hsub _ he, hsub _ hc⟩

/-- A mark settles nothing. -/
theorem Settled.of_cons_marked {i : Nat} {events : List Event} {o c : Offset}
    (h : Settled i (.marked i c :: events) o) : Settled i events o := by
  simpa [Settled] using h

namespace ClaimView

/-- The messages of a claim come in in order. -/
structure Ordered (v : ClaimView) : Prop where
  /-- later messages have larger offsets -/
  increasing : (v.arrived.map Message.offset).Pairwise (· < ·)
  /-- and offsets count from zero -/
  nonneg : ∀ m ∈ v.arrived, 0 ≤ m.offset

variable {w : World} {i : Nat} {v v' : ClaimView}

theorem Ordered.of_move (h : v'.Ordered) (hm : Move w i v v') : v.Ordered where
  increasing := h.increasing.sublist (hm.arrived_prefix.sublist.map _)
  nonneg m hmem := h.nonneg m (hm.arrived_prefix.subset hmem)

theorem Ordered.nodup (h : v.Ordered) : (v.arrived.map Message.offset).Nodup :=
  h.increasing.imp Int.ne_of_lt

theorem Ordered.eq_of_offset_eq (h : v.Ordered) {m m' : Message} (hm : m ∈ v.arrived)
    (hm' : m' ∈ v.arrived) (ho : m.offset = m'.offset) : m = m' :=
  List.inj_on_of_nodup_map h.nodup hm hm' ho

/-- A message that was passed over is for another group. -/
theorem Reachable.not_isAddressed_of_skipped (hr : Reachable w i v) (ho : v.Ordered) {m : Message}
    (hm : m ∈ v.arrived) (hs : .skipped i m.offset ∈ v.events) (fresh : TraceId) :
    (Envelope.ofMessage fresh v.loop.source m).isAddressedTo v.loop.group = false := by
  obtain ⟨m', hm', hoff, haddr⟩ := hr.comesFrom.skipped _ hs
  obtain rfl := ho.eq_of_offset_eq hm' hm hoff
  exact haddr fresh

/-- What was not taken comes after everything that was. -/
theorem Reachable.lt_of_not_taken (hr : Reachable w i v) (ho : v.Ordered) {o : Offset} {m : Message}
    (hto : o ∈ v.taken i) (hm : m ∈ v.arrived) (htm : m.offset ∉ v.taken i) : o < m.offset := by
  obtain ⟨rest, hrest⟩ := hr.inOrder.taken_prefix
  have hpair := ho.increasing
  rw [← hrest, List.pairwise_append] at hpair
  have hmem : m.offset ∈ (v.taken i).reverse ++ rest := hrest ▸ List.mem_map_of_mem hm
  rcases List.mem_append.1 hmem with hmem | hmem
  · exact absurd (List.mem_reverse.1 hmem) htm
  · exact hpair.2.2 o (List.mem_reverse.2 hto) _ hmem

/-- What is left comes after everything else that was taken. -/
theorem Reachable.lt_left (hr : Reachable w i v) (ho : v.Ordered) {left o : Offset}
    (hleft : v.Accounted i (some left)) (hmem : o ∈ v.skipped i ∨ o ∈ v.entered i) : o < left := by
  obtain ⟨rest, hrest⟩ := List.head?_eq_some_iff.1 (hleft.last left rfl)
  have hperm := hleft.perm
  rw [hrest, Option.toList_some] at hperm
  have hrestPerm : rest.Perm (v.skipped i ++ v.entered i) :=
    (hperm.trans List.perm_append_comm).cons_inv
  have hdown : (v.taken i).Pairwise (· > ·) := by
    rw [← List.pairwise_reverse]
    exact ho.increasing.sublist hr.inOrder.taken_prefix.sublist
  rw [hrest, List.pairwise_cons] at hdown
  exact hdown.1 o (hrestPerm.mem_iff.2 (List.mem_append.2 hmem))

/-! ## The high watermark -/

theorem high_of_step {now next : Nat} {l l' : ClaimLoop} {queue queue' : List Message}
    {env? : Option Envelope} {news : List Event}
    (h : l.Step i now next queue l' queue' env? news) :
    l'.tracker.high = l.tracker.high ∨ ∃ o, l'.tracker.high = o ∧
      (.skipped i o ∈ news ∨ ∃ n, .entered i o n ∈ news) := by
  have hskip : ∀ {t t' : Tracker Envelope} {o due}, t.skip o = (due, t') →
      t'.high = t.high ∨ t'.high = o := by
    intro t t' o due hs
    rw [Tracker.skip_eq] at hs
    split at hs
    · obtain ⟨-, rfl⟩ := Prod.mk.inj hs
      dsimp only
      lia
    · obtain ⟨-, rfl⟩ := Prod.mk.inj hs
      exact Or.inl rfl
  have henter : ∀ (t : Tracker Envelope) o a, (t.enter o a).high = t.high ∨ (t.enter o a).high = o := by
    intro t o a
    rw [Tracker.high_enter]
    lia
  cases h with
  | @pass m rest fresh due tracker _ _ hs =>
    exact (hskip hs).imp_right fun ho => ⟨_, ho, Or.inl (by cases due <;> simp)⟩
  | crash _ _ hs => exact (hskip hs).imp_right fun ho => ⟨_, ho, Or.inl (by simp)⟩
  | enter => exact (henter _ _ _).imp_right fun ho => ⟨_, ho, Or.inr ⟨next, by simp⟩⟩
  | unpark => exact (henter _ _ _).imp_right fun ho => ⟨_, ho, Or.inr ⟨next, by simp⟩⟩
  | _ => exact Or.inl rfl

/-- The high watermark is the offset of a message that was passed over or entered. -/
theorem Reachable.high_mem (hr : Reachable w i v) :
    v.loop.tracker.high = -1 ∨
      v.loop.tracker.high ∈ v.skipped i ∨ v.loop.tracker.high ∈ v.entered i := by
  induction hr with
  | new hn =>
    obtain ⟨member, m, claim, hl⟩ := hn.loop_eq
    rw [hl]
    exact Or.inl rfl
  | @move v v' hr hmove ih =>
    have hkeep : v'.loop.tracker.high = v.loop.tracker.high →
        v'.loop.tracker.high = -1 ∨
          v'.loop.tracker.high ∈ v'.skipped i ∨ v'.loop.tracker.high ∈ v'.entered i := by
      intro hhigh
      have hsub := hmove.events_suffix.subset
      rw [hhigh]
      simp only [mem_skipped, mem_entered] at ih ⊢
      exact ih.imp_right (Or.imp (fun h => hsub h) fun ⟨n, h⟩ => ⟨n, hsub h⟩)
    have hgoes : ∀ {now next l' queue' env? news},
        v.loop.Step i now next v.queue l' queue' env? news → v'.loop = l' →
        v'.events = news ++ v.events →
        v'.loop.tracker.high = -1 ∨
          v'.loop.tracker.high ∈ v'.skipped i ∨ v'.loop.tracker.high ∈ v'.entered i := by
      rintro now next l' queue' env? news hstep rfl hevents
      rcases high_of_step hstep with hhigh | ⟨o, hhigh, hmem⟩
      · exact hkeep hhigh
      · rw [mem_skipped, mem_entered, hhigh, hevents]
        exact Or.inr (hmem.imp (List.mem_append_left _) fun ⟨n, h⟩ => ⟨n, List.mem_append_left _ h⟩)
    cases hmove with
    | arrives ms => exact hkeep rfl
    | told _ _ => exact hkeep rfl
    | elsewhere _ _ => exact hkeep rfl
    | goes hstep => exact hgoes hstep rfl rfl
    | enters hstep => exact hgoes hstep rfl rfl
    | handles _ hh =>
      apply hkeep
      cases hh with
      | completes _ hc =>
        cases hc with
        | stray => rfl
        | done hc _ => exact (Tracker.eq_of_complete hc).2.2.2.1
      | _ => rfl

/-- What was passed over or entered has come in. -/
theorem Reachable.exists_arrived (hr : Reachable w i v) {o : Offset}
    (ho : o ∈ v.skipped i ∨ o ∈ v.entered i) : ∃ m ∈ v.arrived, m.offset = o := by
  obtain ⟨left, hleft⟩ := hr.accounted
  have htaken := hleft.perm.mem_iff.2 (List.mem_append_left _ (List.mem_append.2 ho))
  exact List.mem_map.1 (hr.inOrder.taken_prefix.subset (List.mem_reverse.2 htaken))

/-- So the high watermark is `-1` or the offset of a message that has come in. -/
theorem Reachable.high_arrived (hr : Reachable w i v) :
    v.loop.tracker.high = -1 ∨ ∃ m ∈ v.arrived, m.offset = v.loop.tracker.high :=
  hr.high_mem.imp_right hr.exists_arrived

/-- And a mark passes some message that has come in. -/
theorem Reachable.exists_lt_of_marked (hr : Reachable w i v) {c : Offset}
    (hc : .marked i c ∈ v.events) : ∃ m ∈ v.arrived, m.offset < c := by
  obtain ⟨o, hlt, ho⟩ := hr.markedFor hc
  obtain ⟨m, hm, rfl⟩ := hr.exists_arrived ho.mem
  exact ⟨m, hm, hlt⟩

/-- What was neither passed over nor entered lies above the high watermark. -/
theorem Reachable.high_lt (hr : Reachable w i v) (ho : v.Ordered) {m : Message} (hm : m ∈ v.arrived)
    (hs : m.offset ∉ v.skipped i) (he : m.offset ∉ v.entered i) : v.loop.tracker.high < m.offset := by
  obtain ⟨left, hleft⟩ := hr.accounted
  have hnonneg := ho.nonneg m hm
  rcases hr.high_mem with hhigh | hhigh
  · rw [hhigh]
    lia
  · by_cases ht : m.offset ∈ v.taken i
    · have hmem := hleft.perm.mem_iff.1 ht
      simp only [List.mem_append, hs, he, or_self, false_or, Option.mem_toList] at hmem
      rw [hmem] at hleft
      exact hr.lt_left ho hleft hhigh
    · refine hr.lt_of_not_taken ho (hleft.perm.mem_iff.2 ?_) hm ht
      exact List.mem_append_left _ (List.mem_append.2 hhigh)

/-! ## Below the low watermark -/

/-- **Settled.**  What lies below the low watermark is settled. -/
theorem Reachable.settled_of_lt_low (hr : Reachable w i v) (ho : v.Ordered) {m : Message}
    (hm : m ∈ v.arrived) (hlt : m.offset < v.loop.tracker.low) : Settled i v.events m.offset := by
  have hnext := hr.exact.low_le_next
  by_cases hs : m.offset ∈ v.skipped i
  · exact Or.inl (mem_skipped.1 hs)
  · by_cases he : m.offset ∈ v.entered i
    · obtain ⟨n, hn⟩ := mem_entered.1 he
      obtain ⟨t, ht, hoff⟩ := (hr.recorded.entered_iff _ n).1 hn
      refine Or.inr ⟨n, hn, (hr.recorded.completed_iff n t ht).2 ?_⟩
      -- otherwise the message would be in the tracker, and the low watermark not above it
      by_contra hp
      have hkey := (hr.tracked (hr.nodup_taken ho.nodup) m.offset).2 ⟨n, t, ht, hp, hoff⟩
      have := hr.exact.low_le hkey
      lia
    · have := hr.high_lt ho hm hs he
      rw [Offset.next] at hnext
      lia

/-- The messages of handlings that are not done do not lie below the low watermark. -/
theorem Reachable.low_le_running (hr : Reachable w i v) (ho : v.Ordered) {n : Nat} {t : Handling}
    (ht : v.handling? n = some t) (hp : t.phase ≠ .done) : v.loop.tracker.low ≤ t.envelope.offset :=
  hr.exact.low_le ((hr.tracked (hr.nodup_taken ho.nodup) _).2 ⟨n, t, ht, hp, rfl⟩)

/-- Nor do those that were neither passed over nor entered. -/
theorem Reachable.low_le_waiting (hr : Reachable w i v) (ho : v.Ordered) {m : Message}
    (hm : m ∈ v.arrived) (hs : m.offset ∉ v.skipped i) (he : m.offset ∉ v.entered i) :
    v.loop.tracker.low ≤ m.offset := by
  have hhigh := hr.high_lt ho hm hs he
  have hnext := hr.exact.low_le_next
  rw [Offset.next] at hnext
  lia

/-! ## What is marked -/

/-- What a step of the loop marks is the low watermark it comes to. -/
theorem low_of_step {now next : Nat} {l l' : ClaimLoop} {queue queue' : List Message}
    {env? : Option Envelope} {news : List Event} (he : l.tracker.Exact)
    (hqueue : ∀ m ∈ queue, l.tracker.high < m.offset)
    (hparked : ∀ env, l.phase = .parked env → l.tracker.high < env.offset)
    (h : l.Step i now next queue l' queue' env? news) :
    l.tracker.low ≤ l'.tracker.low ∧ ((∀ c, .marked i c ∉ news) ∨
      ∃ rest, news = .marked i l'.tracker.low :: rest ∧ (∀ c, .marked i c ∉ rest) ∧
        l.tracker.low < l'.tracker.low) := by
  cases h with
  | @pass m rest fresh due tracker _ _ hs =>
    obtain ⟨hle, hdue⟩ := he.low_skip (hqueue m List.mem_cons_self) hs
    refine ⟨hle, ?_⟩
    cases due with
    | none => exact Or.inl (by simp)
    | some c =>
      obtain ⟨rfl, hlt⟩ := hdue c rfl
      exact Or.inr ⟨_, rfl, by simp, hlt⟩
  | crash _ _ hs => exact ⟨(he.low_skip (hqueue _ List.mem_cons_self) hs).1, Or.inl (by simp)⟩
  | @enter m rest _ _ _ => exact ⟨he.low_le_enter (hqueue m List.mem_cons_self) _, Or.inl (by simp)⟩
  | unpark hp => exact ⟨he.low_le_enter (hparked _ hp) _, Or.inl (by simp)⟩
  | _ => exact ⟨Int.le_refl _, Or.inl (by simp)⟩

theorem Reachable.high_lt_queue (hr : Reachable w i v) (ho : v.Ordered)
    (hrun : v.loop.isEnded = false) : ∀ m ∈ v.queue, v.loop.tracker.high < m.offset := by
  intro m hm
  obtain ⟨left, hleft⟩ := hr.accounted
  have hnot : m.offset ∉ v.taken i := by
    intro ht
    have hpair := ho.increasing
    rw [← hr.inOrder.queue_eq hrun, List.pairwise_append] at hpair
    exact Int.lt_irrefl _ (hpair.2.2 _ (List.mem_reverse.2 ht) _ (List.mem_map_of_mem hm))
  have hmem := mt hleft.perm.mem_iff.2 hnot
  simp only [List.mem_append, not_or] at hmem
  exact hr.high_lt ho (hr.comesFrom.queue_suffix.subset hm) hmem.1.1 hmem.1.2

theorem Reachable.high_lt_parked (hr : Reachable w i v) (ho : v.Ordered) {env : Envelope}
    (hp : v.loop.phase = .parked env) : v.loop.tracker.high < env.offset := by
  obtain ⟨left, hleft⟩ := hr.accounted
  obtain rfl := hleft.parked env hp
  obtain ⟨m, hm, ⟨fresh, henv⟩, -⟩ := hr.comesFrom.waiting env hp
  have hoff : m.offset = env.offset := by rw [henv, Envelope.offset_ofMessage]
  rw [← hoff] at hleft ⊢
  refine hr.high_lt ho hm ?_ ?_
  · intro hs
    exact Int.lt_irrefl _ (hr.lt_left ho hleft (Or.inl hs))
  · intro he
    exact Int.lt_irrefl _ (hr.lt_left ho hleft (Or.inr he))

/-- What a move marks is the low watermark it comes to, which lies above the one it started from. -/
theorem Move.marks (hm : Move w i v v') (hr : Reachable w i v) (ho : v.Ordered) :
    ∃ news, v'.events = news ++ v.events ∧ (v'.arrived = v.arrived ∨ news = []) ∧
      v.loop.tracker.low ≤ v'.loop.tracker.low ∧
      ((∀ c, .marked i c ∉ news) ∨
        ∃ rest, news = .marked i v'.loop.tracker.low :: rest ∧ (∀ c, .marked i c ∉ rest) ∧
          v.loop.tracker.low < v'.loop.tracker.low) := by
  have hgoes : ∀ {now next l' queue' env? news},
      v.loop.Step i now next v.queue l' queue' env? news →
      v.loop.tracker.low ≤ l'.tracker.low ∧ ((∀ c, .marked i c ∉ news) ∨
        ∃ rest, news = .marked i l'.tracker.low :: rest ∧ (∀ c, .marked i c ∉ rest) ∧
          v.loop.tracker.low < l'.tracker.low) :=
    fun hstep => low_of_step hr.exact (hr.high_lt_queue ho (taken_of_step hstep).1)
      (fun _ hp => hr.high_lt_parked ho hp) hstep
  cases hm with
  | arrives ms => exact ⟨[], rfl, Or.inr rfl, Int.le_refl _, Or.inl (by simp)⟩
  | told _ _ => exact ⟨[], rfl, Or.inl rfl, Int.le_refl _, Or.inl (by simp)⟩
  | elsewhere _ hnews =>
    exact ⟨_, rfl, Or.inl rfl, Int.le_refl _, Or.inl fun c hc => (hnews _ hc).1 rfl⟩
  | goes hstep => exact ⟨_, rfl, Or.inl rfl, hgoes hstep⟩
  | enters hstep => exact ⟨_, rfl, Or.inl rfl, hgoes hstep⟩
  | @handles l l' _ _ _ _ n _ news t t' ht hh =>
    refine ⟨news, rfl, Or.inl rfl, ?_⟩
    by_cases hmark : ∃ c, .marked i c ∈ news
    · obtain ⟨c, hc⟩ := hmark
      obtain ⟨rest, rfl, habout, completion, hcomplete, hcommit⟩ := marked_of_handles hh hc
      obtain ⟨hle, hlow⟩ := hr.exact.low_complete hcomplete
      obtain ⟨rfl, hlt⟩ := hlow c hcommit
      refine ⟨hle, Or.inr ⟨_, rfl, ?_, hlt⟩⟩
      intro c hc
      rcases List.mem_cons.1 hc with heq | hc
      · cases heq
      · exact nomatch habout _ hc
    · refine ⟨?_, Or.inl fun c hc => hmark ⟨c, hc⟩⟩
      cases hh with
      | completes _ hc =>
        cases hc with
        | stray => exact Int.le_refl _
        | done hc _ => exact (hr.exact.low_complete hc).1
      | _ => exact Int.le_refl _

/-! ## All marks are safe -/

/-- All marks of a claim are safe. -/
structure Safe (i : Nat) (v : ClaimView) : Prop where
  /-- they are not above the low watermark -/
  le_low : ∀ c, .marked i c ∈ v.events → c ≤ v.loop.tracker.low
  /-- what lay below a mark had been settled when it was made -/
  settled : ∀ c earlier, .marked i c :: earlier <:+ v.events →
    ∀ m ∈ v.arrived, m.offset < c → Settled i earlier m.offset
  /-- each is larger than those before it -/
  increasing : ∀ c earlier, .marked i c :: earlier <:+ v.events → ∀ c', .marked i c' ∈ earlier → c' < c

/-- A mark in a longer journal was in the shorter one or is new. -/
theorem suffix_of_append {events earlier : List Event} {c : Offset} {news : List Event}
    (hnews : ∀ c, .marked i c ∉ news) (h : .marked i c :: earlier <:+ news ++ events) :
    .marked i c :: earlier <:+ events :=
  suffix_of_not_mem (hnews c) h

/-- **Safe marks.**  When messages come in in order, marks are safe. -/
theorem Reachable.safe (hr : Reachable w i v) (ho : v.Ordered) : v.Safe i := by
  induction hr with
  | new hn =>
    have hnone : ∀ c, Event.marked i c ∉ _ := fun c hc => (hn.elsewhere _ hc).1 rfl
    refine ⟨fun c hc => absurd hc (hnone c), ?_, ?_⟩
    · intro c earlier hs
      exact absurd (hs.subset List.mem_cons_self) (hnone c)
    · intro c earlier hs
      exact absurd (hs.subset List.mem_cons_self) (hnone c)
  | @move v v' hr hmove ih =>
    have ho₀ := ho.of_move hmove
    obtain ⟨hle, hsettled, hincreasing⟩ := ih ho₀
    obtain ⟨news, hevents, harrived, hlow, hmarks⟩ := hmove.marks hr ho₀
    have hsettled' : ∀ c, c ≤ v'.loop.tracker.low → ∀ m ∈ v'.arrived, m.offset < c →
        Settled i v'.events m.offset :=
      fun c hc m hm hlt => (hr.move hmove).settled_of_lt_low ho hm (by lia)
    -- a message below an old mark was there when it was made
    have hold : ∀ c earlier, .marked i c :: earlier <:+ v.events →
        ∀ m ∈ v'.arrived, m.offset < c → Settled i earlier m.offset := by
      intro c earlier hs m hm hlt
      rcases harrived with heq | rfl
      · exact hsettled c earlier hs m (heq ▸ hm) hlt
      · have hc := hle c (hs.subset List.mem_cons_self)
        obtain ⟨left, hleft⟩ := hr.accounted
        have htaken : m.offset ∈ v.taken i := by
          have h := hsettled' c (by lia) m hm hlt
          rw [hevents, List.nil_append] at h
          refine hleft.perm.mem_iff.2 (List.mem_append_left _ (List.mem_append.2 ?_))
          exact h.imp mem_skipped.2 fun ⟨n, he, _⟩ => mem_entered.2 ⟨n, he⟩
        have hmem : m.offset ∈ v.arrived.map Message.offset :=
          hr.inOrder.taken_prefix.subset (List.mem_reverse.2 htaken)
        obtain ⟨m₀, hm₀, hoff⟩ := List.mem_map.1 hmem
        exact hoff ▸ hsettled c earlier hs m₀ hm₀ (hoff ▸ hlt)
    rcases hmarks with hnone | ⟨rest, rfl, hnone, hlt⟩
    · refine ⟨?_, ?_, ?_⟩
      · intro c hc
        rw [hevents, List.mem_append, or_iff_right (hnone c)] at hc
        exact Int.le_trans (hle c hc) hlow
      · intro c earlier hs
        rw [hevents] at hs
        exact hold c earlier (suffix_of_append hnone hs)
      · intro c earlier hs
        rw [hevents] at hs
        exact hincreasing c earlier (suffix_of_append hnone hs)
    · -- the last mark is the low watermark of now
      have hlast : ∀ c earlier, .marked i c :: earlier <:+ v'.events →
          c = v'.loop.tracker.low ∧ earlier = rest ++ v.events ∨
            .marked i c :: earlier <:+ v.events := by
        intro c earlier hs
        rw [hevents, List.cons_append, List.suffix_cons_iff] at hs
        rcases hs with hs | hs
        · obtain ⟨hc, hearlier⟩ := List.cons.inj hs
          exact Or.inl ⟨(Event.marked.inj hc).2, hearlier⟩
        · exact Or.inr (suffix_of_append hnone hs)
      refine ⟨?_, ?_, ?_⟩
      · intro c hc
        rw [hevents, List.cons_append, List.mem_cons, List.mem_append, or_iff_right (hnone c)] at hc
        rcases hc with hc | hc
        · exact Int.le_of_eq (Event.marked.inj hc).2
        · exact Int.le_trans (hle c hc) hlow
      · intro c earlier hs
        rcases hlast c earlier hs with ⟨rfl, rfl⟩ | hs
        · intro m hm hltm
          have h := hsettled' _ (Int.le_refl _) m hm hltm
          rw [hevents] at h
          exact h.of_cons_marked
        · exact hold c earlier hs
      · intro c earlier hs
        rcases hlast c earlier hs with ⟨rfl, rfl⟩ | hs
        · intro c' hc'
          rw [List.mem_append, or_iff_right (hnone c')] at hc'
          have := hle c' hc'
          lia
        · exact hincreasing c earlier hs

end ClaimView

end ConsumerGroup
