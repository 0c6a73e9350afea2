import ConsumerGroup.Proofs.Engine.Endings

/-!
# How a member leaves its session

A member asks its session for claims until the session is over.  Then it cancels its claim loops,
waits for all of them, and leaves with what the session has told it.  It may be told to stop at any
time.

* `Engine.Asks`, `Engine.Cancels`, `Engine.Stands` — a member asks its session, learns that it is
  over, waits for its claim loops.
* `Engine.Course` — all that can become of a member that asks its session (`course_of_run`).
* `Engine.Leaves` — all that can become of one that waits for its claim loops (`leaves_of_run`).
-/

namespace ConsumerGroup

/-! ## The answer of a session -/

namespace Engine

variable {w : World} {e₀ e e' e'' : Engine} {m : Nat} {s : SessionId} {result : Option BrokerError}

/-- Member number `m` stands there. -/
def Stands (e : Engine) (m : Nat) (phase : MemberPhase) : Prop :=
  ∃ member, e.members[m]? = some member ∧ member.phase = phase

/-- Member number `m` asks its session for claims. -/
def Asks (e : Engine) (m : Nat) (s : SessionId) : Prop := e.Stands m (.consuming s)

/-- In its step from `e` to `e'` member number `m` learns that its session is over with that result,
and cancels its claim loops. -/
def Cancels (e : Engine) (m : Nat) (s : SessionId) (result : Option BrokerError) (e' : Engine) : Prop :=
  e.stepMember? m = some e' ∧ e'.Stands m (.leaving s result)

theorem Stands.inj {phase phase' : MemberPhase} (h : e.Stands m phase) (h' : e.Stands m phase') :
    phase = phase' := by
  obtain ⟨member, hm, rfl⟩ := h
  obtain ⟨member', hm', rfl⟩ := h'
  rw [Option.some.inj (hm.symm.trans hm')]

/-- From `e` to `e'` member number `m` has not left a session. -/
def HasNotLeft (e : Engine) (m : Nat) (e' : Engine) : Prop :=
  ∃ news, e'.events = news ++ e.events ∧ ∀ result, .left m result ∉ news

theorem HasNotLeft.refl (e : Engine) (m : Nat) : e.HasNotLeft m e := ⟨[], rfl, by simp⟩

theorem HasNotLeft.tail {news : List Event} (h : e.HasNotLeft m e')
    (hevents : e''.events = news ++ e'.events) (hnews : ∀ result, .left m result ∉ news) :
    e.HasNotLeft m e'' := by
  obtain ⟨news', hevents', hnews'⟩ := h
  refine ⟨news ++ news', by rw [hevents, hevents', List.append_assoc], ?_⟩
  intro result hmem
  exact (List.mem_append.1 hmem).elim (hnews result) (hnews' result)

/-- What has become at `e'` of member number `m`, which asked its session at `e`. -/
inductive Course (w : World) (e : Engine) (m : Nat) (s : SessionId) (e' : Engine) : Prop where
  /-- it still asks -/
  | asks : e'.Asks m s → e.HasNotLeft m e' → Course w e m s e'
  /-- it was stopped -/
  | stopped : e'.Stands m .stopped → e.HasNotLeft m e' → Course w e m s e'
  /-- it has learnt that the session is over, and has cancelled its claim loops -/
  | learns {e₁ e₂ : Engine} {result : Option BrokerError} : Run w e e₁ → e.HasNotLeft m e₁ →
      e₁.Cancels m s result e₂ → Run w e₂ e' → Course w e m s e'

/-- What a step comes to for a member in a phase, when it is not the one to go on. -/
theorem MemberTurn.told_inv {member member' : Member} {news : List Event}
    (h : member' = member ∨ member' = { member with signalled := true })
    (hnews : ∀ event ∈ news, event.member? ≠ some m) :
    member'.phase = member.phase ∧ ∀ result, .left m result ∉ news := by
  refine ⟨?_, fun result hmem => hnews _ hmem rfl⟩
  rcases h with rfl | rfl <;> rfl

/-- A stopped member stays so. -/
theorem Stands.stopped_step (h : e'.Stands m .stopped) (hnot : e.HasNotLeft m e') (hs : e'.Sound)
    (hstep : Step w e' e'') : e''.Stands m .stopped ∧ e.HasNotLeft m e'' := by
  obtain ⟨member, hm, hp⟩ := h
  obtain ⟨member', hm', hturn⟩ := memberTurn_of_step hs hstep hm
  cases hturn with
  | told h hevents hnews =>
    obtain ⟨hp', hleft⟩ := MemberTurn.told_inv h hnews
    exact ⟨⟨member', hm', hp'.trans hp⟩, hnot.tail hevents hleft⟩
  | goes _ hover =>
    rw [Member.isOver, hp] at hover
    cases hover
  | stops _ hover =>
    rw [Member.isOver, hp] at hover
    cases hover

theorem Course.step (h : e.Course w m s e') (hs : e'.Sound) (hrun : Run w e e')
    (hstep : Step w e' e'') : e.Course w m s e'' := by
  cases h with
  | learns hrun hnot hcancels hrun' => exact .learns hrun hnot hcancels (hrun'.tail hstep)
  | stopped hstands hnot =>
    obtain ⟨hstands', hnot'⟩ := hstands.stopped_step hnot hs hstep
    exact .stopped hstands' hnot'
  | asks hasks hnot =>
    obtain ⟨member, hm, hp⟩ := hasks
    obtain ⟨member', hm', hturn⟩ := memberTurn_of_step hs hstep hm
    cases hturn with
    | told h hevents hnews =>
      obtain ⟨hp', hleft⟩ := MemberTurn.told_inv h hnews
      exact .asks ⟨member', hm', hp'.trans hp⟩ (hnot.tail hevents hleft)
    | stops _ _ _ _ hmv =>
      exact .stopped ⟨_, hm', rfl⟩ (hnot.tail (events_of_journal_eq hmv.journal_eq) (by simp))
    | goes hgoes _ hnot' hmember hmv =>
      have hevents := events_of_journal_eq hmv.journal_eq
      cases hmember with
      | @claims s' _ _ hp' =>
        obtain rfl := MemberPhase.consuming.inj (hp.symm.trans hp')
        exact .asks ⟨_, hm', rfl⟩ (hnot.tail hevents (by simp))
      | @ends s' _ _ result hp' =>
        obtain rfl := MemberPhase.consuming.inj (hp.symm.trans hp')
        exact .learns hrun hnot ⟨hgoes, _, hm', rfl⟩ .refl
      | stops hsignal => exact nomatch hnot'.symm.trans hsignal
      | joinPanics hp' | joins hp' | joinFails hp' | restarts hp' | finishes hp' | retries hp' =>
        exact nomatch hp.symm.trans hp'

/-- What has become at `e'` of member number `m`, which waits at `e` for its claim loops. -/
inductive Leaves (e : Engine) (m : Nat) (s : SessionId) (result : Option BrokerError) (e' : Engine) :
    Prop where
  /-- it still waits for them, and for no others -/
  | waits : e'.Stands m (.leaving s result) → e.HasNotLeft m e' →
      (∀ (i : Nat) (l' : ClaimLoop), e'.loops[i]? = some l' → l'.member = m →
        ∃ l, e.loops[i]? = some l ∧ l.member = m) → Leaves e m s result e'
  /-- it was stopped -/
  | stopped : e'.Stands m .stopped → e.HasNotLeft m e' → Leaves e m s result e'
  /-- they have all ended, and then it has left with that result -/
  | left {before after : List Event} :
      e'.events = after ++ .left m result :: (before ++ e.events) →
      (∀ result', .left m result' ∉ before) →
      (∀ (i : Nat) (l : ClaimLoop), e.loops[i]? = some l → l.member = m →
        ∃ how, .ended i how ∈ before ++ e.events) → Leaves e m s result e'

theorem exists_of_isEnded {l : ClaimLoop} (h : l.isEnded = true) : ∃ how, l.phase = .ended how := by
  rw [ClaimLoop.isEnded] at h
  split at h
  · exact ⟨_, ‹_›⟩
  · cases h

theorem isEnded_of_loopsEnded {i : Nat} {l : ClaimLoop} (h : e.loopsEnded m = true)
    (hl : e.loops[i]? = some l) (hm : l.member = m) : l.isEnded = true := by
  rw [loopsEnded, Array.all_eq_true_iff_forall_mem] at h
  simpa [hm] using h l (Array.mem_of_getElem? hl)

/-- Claim loops stay those of their members. -/
theorem member_of_run {i : Nat} {l : ClaimLoop} (hs : e.Sound) (hrun : Run w e e')
    (hl : e.loops[i]? = some l) : ∃ l', e'.loops[i]? = some l' ∧ l'.member = l.member := by
  induction hrun with
  | refl => exact ⟨l, hl, rfl⟩
  | tail hrun hstep ih =>
    obtain ⟨l₁, hl₁, hm⟩ := ih
    obtain ⟨l₂, hl₂, hturn⟩ := loopTurn_of_step (sound_of_run hs hrun) hstep hl₁
    exact ⟨l₂, hl₂, hturn.keeps.1.member_eq.trans hm⟩

/-- Only a member that asks its session gets a claim loop; the others keep those they have. -/
theorem exists_loop_of_step {i : Nat} {l' : ClaimLoop} (hs : e.Sound) (hstep : Step w e e')
    (hasks : ∀ s, ¬ e.Asks m s) (hl' : e'.loops[i]? = some l') (hm : l'.member = m) :
    ∃ l, e.loops[i]? = some l ∧ l.member = m ∧ e.LoopTurn i l e' l' := by
  rcases hl : e.loops[i]? with _ | l
  · obtain ⟨k, member, s, claim, b, hk, hp, -, -, -, rfl⟩ := exists_claim_of_step hs hstep hl hl'
    exact absurd ⟨member, hm ▸ hk, hp⟩ (hasks s)
  · obtain ⟨l'', hl'', hturn⟩ := loopTurn_of_step hs hstep hl
    obtain rfl := Option.some.inj (hl'.symm.trans hl'')
    exact ⟨l, rfl, hturn.keeps.1.member_eq.symm.trans hm, hturn⟩

theorem Leaves.step (h : e.Leaves m s result e') (hs : e.Sound) (hrun : Run w e e')
    (hkeeps : e'.Keeps) (hstep : Step w e' e'') : e.Leaves m s result e'' := by
  have hs' := sound_of_run hs hrun
  cases h with
  | left hevents hbefore hended =>
    obtain ⟨news, hevents'⟩ := events_of_step hs' hstep
    exact .left (by rw [hevents', hevents, List.append_assoc]) hbefore hended
  | stopped hstands hnot =>
    obtain ⟨hstands', hnot'⟩ := hstands.stopped_step hnot hs' hstep
    exact .stopped hstands' hnot'
  | waits hstands hnot hloops =>
    have hasks : ∀ s', ¬ e'.Asks m s' := fun s' h => nomatch hstands.inj h
    obtain ⟨member, hm, hp⟩ := hstands
    obtain ⟨member', hm', hturn⟩ := memberTurn_of_step hs' hstep hm
    -- all loops it waits for have ended, and have noted that
    have hleft : ∀ news, e'.loopsEnded m = true →
        e''.events = news ++ .left m result :: e'.events → e.Leaves m s result e'' := by
      intro news hended hevents
      obtain ⟨before, hevents', hbefore⟩ := hnot
      refine .left (by rw [hevents, hevents']) hbefore ?_
      intro i l hl hlm
      obtain ⟨l', hl', hlm'⟩ := member_of_run hs hrun hl
      obtain ⟨how, hphase⟩ := exists_of_isEnded (isEnded_of_loopsEnded hended hl' (hlm'.trans hlm))
      exact ⟨how, hevents' ▸ hkeeps.noted i l' how hl' hphase⟩
    cases hturn with
    | told h hevents hnews =>
      obtain ⟨hp', hleft⟩ := MemberTurn.told_inv h hnews
      refine .waits ⟨member', hm', hp'.trans hp⟩ (hnot.tail hevents hleft) ?_
      intro i l'' hl'' hlm
      obtain ⟨l', hl', hlm', -⟩ := exists_loop_of_step hs' hstep hasks hl'' hlm
      exact hloops i l' hl' hlm'
    | stops _ _ _ _ hmv =>
      exact .stopped ⟨_, hm', rfl⟩ (hnot.tail (events_of_journal_eq hmv.journal_eq) (by simp))
    | goes _ _ hsignal hmember hmv =>
      have hevents := events_of_journal_eq hmv.journal_eq
      cases hmember with
      | @restarts _ result' hp' hended =>
        obtain ⟨-, rfl⟩ := MemberPhase.leaving.inj (hp.symm.trans hp')
        exact hleft [.restarting m (restartReason result)] hended hevents
      | @finishes _ result' hp' hended =>
        obtain ⟨-, rfl⟩ := MemberPhase.leaving.inj (hp.symm.trans hp')
        exact hleft [] hended hevents
      | stops hsignal' => exact nomatch hsignal.symm.trans hsignal'
      | joinPanics hp' | joins hp' | joinFails hp' | claims hp' | ends hp' | retries hp' =>
        exact nomatch hp.symm.trans hp'

end Engine

end ConsumerGroup
