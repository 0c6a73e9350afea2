import ConsumerGroup.Proofs.Claim.InFlight
import ConsumerGroup.Proofs.Engine.OnTime
import ConsumerGroup.Proofs.Engine.Retiring

/-!
# Members that are told to stop

A member that has been told to stop does nothing else any more.  Wherever it stands, its next step is
to stop, and then it has come to its end: it gets no claim loop, and those it had take nothing.

* `Engine.Over`, `Engine.Told` — a member has come to its end, or it has been told to stop.
* `Told.run` — that stays so, and the member does nothing that is noted; above all, it joins nothing.
* `Engine.HadTurn` — a task has had its turn; a member that was told to stop is over then.
* `Over.quiet` — the claim loops of a member that is over take nothing.
* `over_of_onTime` — while nobody is late, members that were told to stop are over before the clock
  moves.
-/

namespace ConsumerGroup.Engine

/-- Member number `m` has come to its end. -/
def Over (e : Engine) (m : Nat) : Prop :=
  ∃ member, e.members[m]? = some member ∧ member.isOver = true

/-- Member number `m` has come to its end, or it has been told to stop. -/
def Told (e : Engine) (m : Nat) : Prop :=
  ∃ member, e.members[m]? = some member ∧ (member.isOver = true ∨ member.signalled = true)

/-- Between `e` and `e'` member number `m` has done nothing that is noted. -/
def IsSilent (e : Engine) (m : Nat) (e' : Engine) : Prop :=
  ∃ news, e'.events = news ++ e.events ∧ ∀ event ∈ news, event.member? ≠ some m

/-- Between `e` and `e'` a task has had its turn: it has gone on, or it had to wait. -/
def HadTurn (w : World) (e : Engine) (t : TaskId) (e' : Engine) : Prop :=
  ∃ e₁, Run w e e₁ ∧ Run w ((e₁.step? w t).getD e₁) e'

variable {w : World} {e₀ e e' e'' : Engine} {m : Nat}

theorem Over.told (h : e.Over m) : e.Told m := by
  obtain ⟨member, hm, hover⟩ := h
  exact ⟨member, hm, Or.inl hover⟩

theorem IsSilent.refl (e : Engine) (m : Nat) : e.IsSilent m e := ⟨[], rfl, by simp⟩

theorem IsSilent.trans (h : e.IsSilent m e') (h' : e'.IsSilent m e'') : e.IsSilent m e'' := by
  obtain ⟨news, hevents, hnews⟩ := h
  obtain ⟨news', hevents', hnews'⟩ := h'
  refine ⟨news' ++ news, by rw [hevents', hevents, List.append_assoc], ?_⟩
  intro event hmem
  exact (List.mem_append.1 hmem).elim (hnews' event) (hnews event)

/-! ## What is told stays told -/

/-- A member that is over stays so. -/
theorem Over.step (h : e.Over m) (hs : e.Sound) (hstep : Step w e e') : e'.Over m := by
  obtain ⟨member, hm, hover⟩ := h
  obtain ⟨member', hm', hturn⟩ := memberTurn_of_step hs hstep hm
  cases hturn with
  | told hmember =>
    refine ⟨member', hm', ?_⟩
    rcases hmember with rfl | rfl <;> exact hover
  | goes _ hnot => exact nomatch hnot.symm.trans hover
  | stops _ hnot => exact nomatch hnot.symm.trans hover

theorem Over.run (h : e.Over m) (hs : e.Sound) (hrun : Run w e e') : e'.Over m := by
  induction hrun with
  | refl => exact h
  | tail hrun hstep ih => exact ih.step (sound_of_run hs hrun) hstep

/-- A member that has been told to stop stays so in a step, and does nothing that is noted. -/
theorem Told.step (h : e.Told m) (hs : e.Sound) (hstep : Step w e e') :
    e'.Told m ∧ e.IsSilent m e' := by
  obtain ⟨member, hm, htold⟩ := h
  obtain ⟨member', hm', hturn⟩ := memberTurn_of_step hs hstep hm
  cases hturn with
  | told hmember hevents hnews =>
    refine ⟨⟨member', hm', ?_⟩, _, hevents, hnews⟩
    rcases hmember with rfl | rfl
    · exact htold
    · exact Or.inr rfl
  | goes _ hover hnot =>
    rcases htold with htold | htold
    · exact nomatch hover.symm.trans htold
    · exact nomatch hnot.symm.trans htold
  | stops _ _ _ _ hmv =>
    exact ⟨⟨_, hm', Or.inl rfl⟩, _, events_of_journal_eq hmv.journal_eq, by simp⟩

/-- **Told.**  A member that has been told to stop never does anything else that is noted. -/
theorem Told.run (h : e.Told m) (hs : e.Sound) (hrun : Run w e e') :
    e'.Told m ∧ e.IsSilent m e' := by
  induction hrun with
  | refl => exact ⟨h, .refl e m⟩
  | tail hrun hstep ih =>
    obtain ⟨htold, hsilent⟩ := ih
    obtain ⟨htold', hsilent'⟩ := htold.step (sound_of_run hs hrun) hstep
    exact ⟨htold', hsilent.trans hsilent'⟩

/-- Telling a member to stop is enough. -/
theorem told_signal (hm : m < e.members.size) : (e.signal m).Told m := by
  refine ⟨{ e.members[m] with signalled := true }, ?_, Or.inr rfl⟩
  rw [signal, Array.getElem?_modify, if_pos rfl, Array.getElem?_eq_getElem hm, Option.map_some]

theorem Told.signal (h : e.Told m) (k : Nat) : (e.signal k).Told m := by
  obtain ⟨member, hm, htold⟩ := h
  by_cases hk : k = m
  · obtain ⟨hlt, -⟩ := Array.getElem?_eq_some_iff.1 hm
    exact hk ▸ told_signal (hk ▸ hlt)
  · refine ⟨member, ?_, htold⟩
    rw [Engine.signal, Array.getElem?_modify, if_neg hk, hm]

/-! ## Its next step is to stop -/

/-- A member that has been told to stop and is not over can go on, and is over then. -/
theorem Told.step? (h : e.Told m) :
    e.Over m ∨ ∃ e', e.step? w (.member m) = some e' ∧ e'.Over m := by
  obtain ⟨member, hm, htold⟩ := h
  obtain ⟨hlt, -⟩ := Array.getElem?_eq_some_iff.1 hm
  rcases hover : member.isOver with _ | _
  · have hsignal : member.signalled = true := htold.resolve_left (by simp [hover])
    refine Or.inr ⟨e.stopMember m member, ?_, { member with phase := .stopped }, ?_, rfl⟩
    · simp [Engine.step?, stepMember?, hm, hover, hsignal]
    · simp [stopMember, setMember, modifyLoopsOf, hlt]
  · exact Or.inl ⟨member, hm, hover⟩

/-- When it has had its turn it is over. -/
theorem Told.over_of_hadTurn (h : e.Told m) (hs : e.Sound) (hturn : HadTurn w e (.member m) e') :
    e'.Over m := by
  obtain ⟨e₁, hrun, hrun'⟩ := hturn
  have hs₁ := sound_of_run hs hrun
  rcases hstep : e₁.step? w (.member m) with _ | e₂
  · rw [hstep, Option.getD_none] at hrun'
    rcases (h.run hs hrun).1.step? (w := w) with hover | ⟨e₂, hstep', -⟩
    · exact hover.run hs₁ hrun'
    · exact nomatch hstep.symm.trans hstep'
  · rw [hstep, Option.getD_some] at hrun'
    have hs₂ := sound_of_run hs₁ (.single (.task _ hstep))
    rcases (h.run hs hrun).1.step? (w := w) with hover | ⟨e₃, hstep', hover⟩
    · exact (hover.step hs₁ (.task _ hstep)).run hs₂ hrun'
    · obtain rfl := Option.some.inj (hstep.symm.trans hstep')
      exact hover.run hs₂ hrun'

/-! ## Its claim loops take nothing -/

/-- A member that is over asks for no claims. -/
theorem Over.not_asks (h : e.Over m) (s : SessionId) : ¬ e.Asks m s := by
  rintro ⟨member, hm, hp⟩
  obtain ⟨member', hm', hover⟩ := h
  obtain rfl := Option.some.inj (hm.symm.trans hm')
  rw [Member.isOver, hp] at hover
  cases hover

/-- It has no claim loop that goes on. -/
theorem Over.allGone (h : e.Over m) (hr : e.Retires) : e.AllGone m := by
  obtain ⟨member, hm, hover⟩ := h
  rw [Member.isOver] at hover
  split at hover
  · rename_i result hp
    exact (hr.idle m _ ⟨member, hm, hp⟩ trivial).allGone
  · rename_i hp
    exact hr.stopped m ⟨member, hm, hp⟩
  · cases hover

/-- Its claim loops are those it had. -/
theorem Over.exists_loop (h : e.Over m) (hs : e.Sound) (hrun : Run w e e') {i : Nat} {l' : ClaimLoop}
    (hl' : e'.loops[i]? = some l') (hm : l'.member = m) : ∃ l, e.loops[i]? = some l ∧ l.member = m := by
  induction hrun generalizing l' with
  | refl => exact ⟨l', hl', hm⟩
  | tail hrun hstep ih =>
    obtain ⟨l, hl, hlm, -⟩ :=
      exists_loop_of_step (sound_of_run hs hrun) hstep (h.run hs hrun).not_asks hl' hm
    exact ih hl hlm

/-- **Quiet.**  The claim loops of a member that is over take nothing, pass nothing over and enter
nothing any more. -/
theorem Over.quiet (h : e.Over m) (hs : e.Sound) (hr : e.Retires) (hrun : Run w e e') {i : Nat}
    {l' : ClaimLoop} (hl' : e'.loops[i]? = some l') (hm : l'.member = m) :
    ∃ l, e.loops[i]? = some l ∧ ClaimView.SameAccounts i (e.view i l) (e'.view i l') := by
  obtain ⟨l, hl, hlm⟩ := h.exists_loop hs hrun hl' hm
  obtain ⟨l'', hl'', hmoves⟩ := moves_of_run hs hrun hl
  obtain rfl := Option.some.inj (hl'.symm.trans hl'')
  have hstopped : l.IsStopped := by
    rcases h.allGone hr i l hl hlm with hended | haborted
    · obtain ⟨how, hp⟩ := exists_of_isEnded hended
      exact Or.inr (Or.inr ⟨by simp [hp], by simp [hp]⟩)
    · exact Or.inr (Or.inl haborted)
  exact ⟨l, hl, (ClaimView.stopped_of_moves hmoves hstopped).2⟩

/-! ## It stops at once -/

/-- **At once.**  While nobody is late, members that have been told to stop are all over before the
clock moves. -/
theorem over_of_onTime {P : Nat → Prop} (h : ∀ m, P m → e.Told m) (hs : e.Sound)
    (hrun : OnTime w e e') (hlater : e.now < e'.now) :
    ∃ e₁, OnTime w e e₁ ∧ OnTime w e₁ e' ∧ e₁.now = e.now ∧ ∀ m, P m → e₁.Over m := by
  suffices hall : e'.now = e.now ∨
      ∃ e₁, OnTime w e e₁ ∧ OnTime w e₁ e' ∧ e₁.now = e.now ∧ ∀ m, P m → e₁.Over m from
    hall.resolve_left (Nat.ne_of_gt hlater)
  clear hlater
  induction hrun with
  | refl => exact Or.inl rfl
  | task t hrun ht ih =>
    rcases ih with hnow | ⟨e₁, hrun₁, hrun₂, hrest⟩
    · exact Or.inl ((now_of_step? ht).trans hnow)
    · exact Or.inr ⟨e₁, hrun₁, hrun₂.task t ht, hrest⟩
  | act a hrun ih =>
    rcases ih with hnow | ⟨e₁, hrun₁, hrun₂, hrest⟩
    · exact Or.inl ((now_act _ a).trans hnow)
    · exact Or.inr ⟨e₁, hrun₁, hrun₂.act a, hrest⟩
  | tick t hrun ht ih =>
    rcases ih with hnow | ⟨e₁, hrun₁, hrun₂, hrest⟩
    · -- nobody can go on, so all of them have stopped
      refine Or.inr ⟨_, hrun, OnTime.refl.tick t ht, hnow, ?_⟩
      intro m hm
      rcases ((h m hm).run hs hrun.run).1.step? (w := w) with hover | ⟨e₁, hstep, -⟩
      · exact hover
      · exact nomatch (ht.atRest _).symm.trans hstep
    · exact Or.inr ⟨e₁, hrun₁, hrun₂.tick t ht, hrest⟩

end ConsumerGroup.Engine
