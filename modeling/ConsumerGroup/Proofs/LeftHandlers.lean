import ConsumerGroup.Proofs.Shutdown

/-!
# Handlers that a shutdown leaves

A member that stops drops its claim loops, and with them the wait for their handlings.  So a shutdown
returns at once and leaves the handlers as they are, however soon they would be ready:
`shutdown_leaves_handlers`.  A session that ends waits for them.
-/

namespace ConsumerGroup

/-- A world in which every handler is busy for half a second. -/
def World.pausing : World where
  freshTrace _ := default
  handler _ _ := [.pause 500]
  rest _ _ := 0

namespace Engine

variable {w : World} {e e' : Engine} {n d : Nat} {t : Handling}

/-- A handling that waits for a later time is left as it is. -/
theorem waiting_of_step (hs : e.Sound) (hstep : Step w e e') (ht : e.handlings[n]? = some t)
    (hd : HandlingPhase.deadline? t.phase = some d) (hlt : e.now < d) : e'.handlings[n]? = some t := by
  have hset : ∀ {k : Nat} {t₁ t₂ : Handling}, e.handlings[k]? = some t₁ →
      (HandlingPhase.deadline? t₁.phase = some d → False) →
      e'.handlings = e.handlings.setIfInBounds k t₂ → e'.handlings[n]? = some t := by
    intro k t₁ t₂ ht₁ hnot heq
    have hk : k ≠ n := by
      rintro rfl
      obtain rfl := Option.some.inj (ht.symm.trans ht₁)
      exact hnot hd
    rw [heq, Array.getElem?_setIfInBounds_ne hk, ht]
  cases hstep with
  | @task _ task htask =>
    cases task with
    | member m =>
      obtain ⟨member, b, loops, phase, news, -, -, hmv⟩ := stepMember?_inv htask
      exact hmv.handlings_eq ▸ ht
    | loop i =>
      obtain ⟨l, l', queue, env?, news, -, -, hgoes⟩ :=
        stepLoop?_inv htask (hs.fits i) fun l hl => hs.channel_lt hl
      obtain ⟨hn, -⟩ := Array.getElem?_eq_some_iff.1 ht
      rw [hgoes.handlings_eq]
      split
      · rw [Array.getElem?_push, if_neg (Nat.ne_of_lt hn), ht]
      · exact ht
    | handling k =>
      obtain ⟨t₁, l, phase?, startedAt, news, ht₁, -, hgoes, hcomes⟩ :=
        stepHandling?_inv htask (hs.loop_lt k)
      -- one that goes on waits for no later time
      have hnot : HandlingPhase.deadline? t₁.phase = some d → False := by
        intro hd
        cases hgoes with
        | starts hp => simp [hp, HandlingPhase.deadline?] at hd
        | wakes hp hle =>
          simp only [hp, HandlingPhase.deadline?, Option.some.injEq] at hd
          omega
        | calls hp hle =>
          simp only [hp, HandlingPhase.deadline?, Option.some.injEq] at hd
          omega
      cases hcomes with
      | waits hh => exact hset ht₁ hnot hh.handlings_eq
      | completes _ hh => exact hset ht₁ hnot hh.handlings_eq
  | act a =>
    by_cases ha : ∃ k, a = .release k
    · obtain ⟨k, rfl⟩ := ha
      obtain ⟨handlings, hrelease, rfl | ⟨t₁, rest, ht₁, hp, rfl⟩⟩ := e.releaseHandling_inv k
      · rw [act, hrelease]
        exact ht
      · have heq : (e.act (.release k)).handlings =
            e.handlings.setIfInBounds k { t₁ with phase := .pausing e.now rest } := by
          rw [act, hrelease]
        exact hset ht₁ (by simp [hp, HandlingPhase.deadline?]) heq
    · rw [(outside_act a fun k hk => ha ⟨k, hk⟩).handlings_eq, ht]
  | tick t' _ => exact ht

/-- **Waiting.**  A handling that waits for a time is left as it is until then. -/
theorem waiting_of_run (hs : e.Sound) (hrun : Run w e e') (ht : e.handlings[n]? = some t)
    (hd : HandlingPhase.deadline? t.phase = some d) (hlt : e'.now < d) : e'.handlings[n]? = some t := by
  induction hrun with
  | refl => exact ht
  | tail hrun hstep ih =>
    have hlt' := Nat.lt_of_le_of_lt (now_le_of_step hstep) hlt
    exact waiting_of_step (sound_of_run hs hrun) hstep (ih hlt') hd hlt'

end Engine

namespace Registry

open Engine

variable {w : World} {r : Registry} {e e₁ : Engine}

/-- **A shutdown waits for no handler.**  A registry is shut down; nobody is late, and time passes after
that.  Then the call has returned before the clock moved, however long it was to wait.  When it
returns no claim loop of its consumers is left that could wait for handlings: all have ended or are
to be dropped.  And each handler that is busy or rests for some time is left as it is, so its message
is not completed. -/
theorem shutdown_leaves_handlers (h : r.Reach w e) (hopen : r.closing = false)
    (hrun : OnTime w (r.shutdown e).2 e₁) (hlater : e.now < e₁.now) (millis : Nat) :
    ∃ e₂, OnTime w (r.shutdown e).2 e₂ ∧ OnTime w e₂ e₁ ∧ e₂.now = e.now ∧
      r.Returns w millis e e₂ ∧ (∀ entry ∈ r.entries, e₂.AllGone entry.2) ∧
      ∀ (n : Nat) (t : Handling) (d : Nat), e.handlings[n]? = some t →
        HandlingPhase.deadline? t.phase = some d → e.now < d →
        e₂.handlings[n]? = some t ∧ .completed n ∉ e₂.events := by
  have hkeeps := keeps_of_reach h
  obtain ⟨-, hcall, htold⟩ := hkeeps.shutdown
  have hs' := sound_of_run hkeeps.sound hcall
  have hshutdown : (r.shutdown e).2 = r.signalAll e := by
    rw [Registry.shutdown, if_neg (by simp [hopen])]
  have hnow : (r.shutdown e).2.now = e.now := by
    rw [hshutdown, signalAll_eq]
  have htold' : ∀ m, (∃ entry ∈ r.entries, entry.2 = m) → (r.shutdown e).2.Told m := by
    rintro m ⟨entry, hmem, rfl⟩
    exact htold entry hmem
  obtain ⟨e₂, hrun₁, hrun₂, hnow₂, hover⟩ := over_of_onTime htold' hs' hrun (hnow ▸ hlater)
  have hover : ∀ entry ∈ r.entries, e₂.Over entry.2 := fun entry hmem => hover _ ⟨entry, hmem, rfl⟩
  obtain ⟨e₀, h₀, hrun₀⟩ := hkeeps.run
  have hrun' : Run w e₀ e₂ := (hrun₀.trans hcall).trans hrun₁.run
  have hretires := retires_of_run h₀ hrun'
  rw [hnow] at hnow₂
  refine ⟨e₂, hrun₁, hrun₂, hnow₂, .allOver hopen (hcall.trans hrun₁.run) hover,
    fun entry hmem => (hover entry hmem).allGone hretires, ?_⟩
  intro n t d ht hd hlt
  have ht₂ := waiting_of_run hkeeps.sound (hcall.trans hrun₁.run) ht hd (hnow₂ ▸ hlt)
  refine ⟨ht₂, fun hcompleted => ?_⟩
  have hloop := (sound_of_run h₀.sound hrun').loop_lt n t ht₂
  have hr := reachable_of_run h₀ hrun' (Array.getElem?_eq_getElem hloop)
  have hp := (hr.recorded.completed_iff n t (handlingOf?_eq_some.2 ⟨ht₂, rfl⟩)).1 hcompleted
  rw [hp] at hd
  cases hd

/-! ## A handler that is busy for half a second -/

/-- The handler of a consumer has just been called. -/
def busy : Engine := play .pausing (({} : Registry).spawn .sample {}).2
  [.act (.createTopic "t" 1), .task (.member 0), .task (.member 0),
    .act (.deliver ⟨"t", 0⟩ .empty ⟨[]⟩), .task (.loop 0), .task (.handling 0)]

theorem reach_busy : single.Reach .pausing busy :=
  ((Reach.new isFresh_empty).spawn .sample).run (run_play _ _)

/-- The registry is shut down: the consumer stops, its claim loop is dropped, and time passes. -/
def busyLeft : List Happening := [.task (.member 0), .task (.loop 0), .pass 500]

/-- The handling of the one message is busy for half a second. -/
theorem pausing_busy : ∃ t, busy.handlings[0]? = some t ∧ t.phase = .pausing 500 [] := by
  have hphase : (busy.handlings[0]?).map Handling.phase = some (.pausing 500 []) := by decide +kernel
  exact Option.map_eq_some_iff.1 hphase

/-- A shutdown that was to wait for ten seconds returns while it is still busy.  It completes the
message, and marks it, when nobody is left to wait for that. -/
theorem shutdown_leaves_handlers_busy :
    (∃ e₂, single.Returns .pausing 10000 busy e₂ ∧ e₂.now = busy.now ∧
      (∃ t, e₂.handlings[0]? = some t ∧ t.phase = .pausing 500 []) ∧ .completed 0 ∉ e₂.events) ∧
    .marked 0 1 ∈
      (play .pausing (single.shutdown busy).2 (busyLeft ++ [.task (.handling 0)])).events := by
  refine ⟨?_, by decide +kernel⟩
  have hrun : OnTime .pausing (single.shutdown busy).2
      (play .pausing (single.shutdown busy).2 busyLeft) := .play (by decide +kernel)
  obtain ⟨e₂, -, -, hnow, hreturns, -, hwaits⟩ :=
    shutdown_leaves_handlers reach_busy rfl hrun (by decide +kernel) 10000
  obtain ⟨t, ht, hp⟩ := pausing_busy
  have hd : HandlingPhase.deadline? t.phase = some 500 := by rw [hp, HandlingPhase.deadline?]
  obtain ⟨ht₂, hnot⟩ := hwaits 0 t 500 ht hd (by decide +kernel)
  exact ⟨e₂, hreturns, hnow, ⟨t, ht₂, hp⟩, hnot⟩

/-- When the session ends instead, the claim loop waits for the handler. -/
example : ((play .pausing (busy.act (.closeGroup "g" .ended))
    [.task (.member 0), .task (.loop 0), .pass 500, .task (.handling 0),
      .task (.loop 0)]).loops[0]?).map ClaimLoop.phase = some (.ended .drained) := by decide +kernel

/-- So a shutdown does not wait even for handlers that would be ready in time, both for it and for
their claim loops, and would succeed. -/
theorem not_drained_by_shutdown : ¬ ∀ (w : World) (r : Registry) (e e₁ : Engine) (millis : Nat),
    r.Reach w e → r.closing = false →
    (∀ (n : Nat) (t : Handling), e.handlings[n]? = some t → t.phase = .done ∨
      ∃ wakeAt, t.phase = .pausing wakeAt [] ∧ wakeAt < e.now + millis ∧
        ∀ l, e.loops[t.loop]? = some l → wakeAt < e.now + l.drainMillis) →
    OnTime w (r.shutdown e).2 e₁ → r.Returns w millis e e₁ →
    ∀ (n : Nat) (t : Handling), e₁.handlings[n]? = some t → t.phase = .done := by
  intro hall
  obtain ⟨t, ht, hp⟩ := pausing_busy
  have hready : ∀ (n : Nat) (t : Handling), busy.handlings[n]? = some t → t.phase = .done ∨
      ∃ wakeAt, t.phase = .pausing wakeAt [] ∧ wakeAt < busy.now + 10000 ∧
        ∀ l, busy.loops[t.loop]? = some l → wakeAt < busy.now + l.drainMillis := by
    intro n t' ht'
    have hsize : busy.handlings.size = 1 := by decide +kernel
    obtain ⟨hn, -⟩ := Array.getElem?_eq_some_iff.1 ht'
    obtain rfl : n = 0 := by omega
    obtain rfl := Option.some.inj (ht.symm.trans ht')
    have hdrain : ∀ l ∈ busy.loops, 500 < busy.now + l.drainMillis := by decide +kernel
    exact Or.inr ⟨500, hp, by decide +kernel, fun l hl => hdrain l (Array.mem_of_getElem? hl)⟩
  have hrun : OnTime .pausing (single.shutdown busy).2
      (play .pausing (single.shutdown busy).2 [.task (.member 0)]) := .play (by decide +kernel)
  have hreturns : single.Returns .pausing 10000 busy
      (play .pausing (single.shutdown busy).2 [.task (.member 0)]) :=
    .allOver rfl ((run_signalAll single busy).trans hrun.run) (over_single (by decide +kernel))
  have hphase : ((play .pausing (single.shutdown busy).2 [.task (.member 0)]).handlings[0]?).map
      Handling.phase = some (.pausing 500 []) := by decide +kernel
  obtain ⟨t', ht', hp'⟩ := Option.map_eq_some_iff.1 hphase
  exact nomatch hp'.symm.trans (hall _ _ _ _ 10000 reach_busy rfl hready hrun hreturns 0 t' ht')

end Registry

end ConsumerGroup
