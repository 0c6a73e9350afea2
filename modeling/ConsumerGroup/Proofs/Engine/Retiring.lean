import ConsumerGroup.Proofs.Engine.Leaving

/-!
# Members without a session

A member that has no session has no claim loop that goes on: it has waited for all of them, or dropped
them.

* `Engine.AllEnded`, `Engine.AllGone` — the claim loops of a member have ended, or are to be dropped.
* `Engine.Retires` — those of a member that has no session have ended, those of one that was stopped
  have ended or are to be dropped.
* `retires_of_run` — that always holds.
-/

namespace ConsumerGroup

/-- A member in this phase has no session, and will not stop without being told. -/
def MemberPhase.IsIdle : MemberPhase → Prop
  | .joining | .backingOff _ | .finished _ => True
  | .consuming _ | .leaving .. | .stopped => False

namespace Engine

/-- All claim loops of member number `m` have ended. -/
def AllEnded (e : Engine) (m : Nat) : Prop :=
  ∀ (i : Nat) (l : ClaimLoop), e.loops[i]? = some l → l.member = m → l.isEnded = true

/-- All claim loops of member number `m` have ended or are to be dropped. -/
def AllGone (e : Engine) (m : Nat) : Prop :=
  ∀ (i : Nat) (l : ClaimLoop), e.loops[i]? = some l → l.member = m →
    l.isEnded = true ∨ l.aborted = true

/-- What always holds of the claim loops of members that have no session. -/
structure Retires (e : Engine) : Prop where
  /-- a member without a session has waited for its claim loops -/
  idle : ∀ m phase, e.Stands m phase → phase.IsIdle → e.AllEnded m
  /-- one that was stopped has at least dropped them -/
  stopped : ∀ m, e.Stands m .stopped → e.AllGone m

variable {w : World} {e₀ e e' : Engine} {m : Nat}

theorem AllEnded.allGone (h : e.AllEnded m) : e.AllGone m := fun i l hl hm => Or.inl (h i l hl hm)

/-- The claim loops of a member that gets none stay ended. -/
theorem AllEnded.step (h : e.AllEnded m) (hs : e.Sound) (hstep : Step w e e')
    (hasks : ∀ s, ¬ e.Asks m s) : e'.AllEnded m := by
  intro i l' hl' hm
  obtain ⟨l, hl, hlm, hturn⟩ := exists_loop_of_step hs hstep hasks hl' hm
  obtain ⟨how, hp⟩ := exists_of_isEnded (h i l hl hlm)
  rw [ClaimLoop.isEnded, hturn.ended hp]

/-- Nor do those that are to be dropped go on. -/
theorem AllGone.step (h : e.AllGone m) (hs : e.Sound) (hstep : Step w e e')
    (hasks : ∀ s, ¬ e.Asks m s) : e'.AllGone m := by
  intro i l' hl' hm
  obtain ⟨l, hl, hlm, hturn⟩ := exists_loop_of_step hs hstep hasks hl' hm
  rcases h i l hl hlm with hended | haborted
  · obtain ⟨how, hp⟩ := exists_of_isEnded hended
    exact Or.inl (by rw [ClaimLoop.isEnded, hturn.ended hp])
  · exact Or.inr (hturn.keeps.2.2.2 haborted)

/-- A member that is stopped drops its claim loops. -/
theorem allGone_of_stops {member : Member} {b : Broker}
    (hmv : e.Moves m member b (e.modifyLoopsOf m ({ · with aborted := true })).loops .stopped [] e') :
    e'.AllGone m := by
  intro i l' hl' hm
  rw [hmv.loops_eq, modifyLoopsOf, Array.getElem?_map] at hl'
  obtain ⟨l, -, rfl⟩ := Option.map_eq_some_iff.1 hl'
  by_cases hlm : l.member = m
  · exact Or.inr (by rw [if_pos hlm])
  · rw [if_neg hlm] at hm
    exact absurd hm hlm

/-- A member that goes on and has no session then had none before, or has left one after all its claim
loops. -/
theorem AllEnded.of_memberStep {member : Member} {b : Broker} {loops : Array ClaimLoop}
    {phase : MemberPhase} {news : List Event} (h : member.phase.IsIdle → e.AllEnded m)
    (hnot : member.signalled = false) (hstep : e.MemberStep m member b loops phase news)
    (hphase : phase.IsIdle ∨ phase = .stopped) :
    e.AllEnded m ∧ ∀ s, member.phase ≠ .consuming s := by
  have hended : e.loopsEnded m = true → e.AllEnded m := fun hended i l hl hm =>
    isEnded_of_loopsEnded hended hl hm
  cases hstep with
  | joinPanics hp => exact ⟨h (hp ▸ trivial), by simp [hp]⟩
  | joins => simp [MemberPhase.IsIdle] at hphase
  | joinFails hp => exact ⟨h (hp ▸ trivial), by simp [hp]⟩
  | claims => simp [MemberPhase.IsIdle] at hphase
  | ends => simp [MemberPhase.IsIdle] at hphase
  | restarts hp hloops => exact ⟨hended hloops, by simp [hp]⟩
  | finishes hp hloops => exact ⟨hended hloops, by simp [hp]⟩
  | retries hp => exact ⟨h (hp ▸ trivial), by simp [hp]⟩
  | stops hsignal => exact nomatch hnot.symm.trans hsignal

/-- A member that is new has no claim loop. -/
theorem Sound.allEnded (hs : e.Sound) (hm : e.members[m]? = none) : e.AllEnded m := by
  intro i l hl hlm
  obtain ⟨member, hmember, -⟩ := hs.employed i l hl
  rw [hlm, hm] at hmember
  cases hmember

theorem not_asks_of_phase {member : Member} (hm : e.members[m]? = some member)
    (hp : ∀ s, member.phase ≠ .consuming s) (s : SessionId) : ¬ e.Asks m s := by
  rintro ⟨member', hm', hp'⟩
  obtain rfl := Option.some.inj (hm.symm.trans hm')
  exact hp s hp'

theorem Retires.step (h : e.Retires) (hs : e.Sound) (hstep : Step w e e') : e'.Retires := by
  have hnext : ∀ m phase, e'.Stands m phase → phase.IsIdle ∨ phase = .stopped →
      (phase.IsIdle → e'.AllEnded m) ∧ e'.AllGone m := by
    rintro m phase ⟨member', hm', rfl⟩ hphase
    rcases hm : e.members[m]? with _ | member
    · have hended := (hs.allEnded hm).step hs hstep fun s ⟨_, hm', _⟩ => nomatch hm.symm.trans hm'
      exact ⟨fun _ => hended, hended.allGone⟩
    · obtain ⟨member'', hm'', hturn⟩ := memberTurn_of_step hs hstep hm
      obtain rfl := Option.some.inj (hm'.symm.trans hm'')
      cases hturn with
      | told htold _ hnews =>
        obtain ⟨hp, -⟩ := MemberTurn.told_inv htold hnews
        rw [hp] at hphase ⊢
        have hasks := not_asks_of_phase hm (by
          intro s hp
          simp [hp, MemberPhase.IsIdle] at hphase)
        refine ⟨fun hidle => (h.idle m _ ⟨member, hm, rfl⟩ hidle).step hs hstep hasks, ?_⟩
        rcases hphase with hidle | hstopped
        · exact (h.idle m _ ⟨member, hm, rfl⟩ hidle).allGone.step hs hstep hasks
        · exact (h.stopped m ⟨member, hm, hstopped⟩).step hs hstep hasks
      | goes _ _ hnot hmember hmv =>
        obtain ⟨hended, hp⟩ := AllEnded.of_memberStep (h.idle m _ ⟨member, hm, rfl⟩) hnot hmember hphase
        have hended' := hended.step hs hstep (not_asks_of_phase hm hp)
        exact ⟨fun _ => hended', hended'.allGone⟩
      | stops _ _ _ _ hmv => exact ⟨False.elim, allGone_of_stops hmv⟩
  refine ⟨?_, ?_⟩
  · intro m phase hstands hidle
    exact (hnext m phase hstands (Or.inl hidle)).1 hidle
  · intro m hstands
    exact (hnext m _ hstands (Or.inr rfl)).2

/-- **Retiring.**  A member that has no session has no claim loop that goes on. -/
theorem retires_of_run (h₀ : e₀.IsFresh) (hrun : Run w e₀ e) : e.Retires := by
  induction hrun with
  | refl =>
    have hnone : ∀ m, e₀.AllEnded m := by
      intro m i l hl
      simp [h₀.loops_eq] at hl
    exact ⟨fun m _ _ _ => hnone m, fun m _ => (hnone m).allGone⟩
  | tail hrun hstep ih => exact ih.step (sound_of_run h₀.sound hrun) hstep

end Engine

end ConsumerGroup
