import ConsumerGroup.Registry
import ConsumerGroup.Proofs.Engine.Stopping

/-!
# Shutting a registry down

All consumers of a registry are told to stop, and the registry lets go of them.  Whatever they are
doing, they stop in their next step: `shutdown_final`.

* `Registry.Reach` — the registries and engines that come about.
* `Registry.Returns` — when a call of `shutdown` may return.
-/

namespace ConsumerGroup

namespace Registry

/-- The registries and engines that come about when consumers are registered, run and are shut down. -/
inductive Reach (w : World) : Registry → Engine → Prop where
  /-- nothing is registered -/
  | new {e : Engine} : e.IsFresh → Reach w {} e
  /-- a consumer is registered -/
  | spawn {r : Registry} {e : Engine} (member : Member) : Reach w r e →
      Reach w (r.spawn member e).1 (r.spawn member e).2
  /-- something happens -/
  | step {r : Registry} {e e' : Engine} : Reach w r e → Engine.Step w e e' → Reach w r e'
  /-- the registry is shut down -/
  | shutdown {r : Registry} {e : Engine} : Reach w r e → Reach w (r.shutdown e).1 (r.shutdown e).2

/-- A call of `shutdown` at `e` that waits so many milliseconds at most may return at such an engine.
Until then anything may happen: a consumer may go on for a while before it is told to stop. -/
inductive Returns (w : World) (r : Registry) (millis : Nat) (e : Engine) : Engine → Prop where
  /-- there is nothing to do -/
  | again : r.closing = true → Returns w r millis e e
  /-- all consumers of the registry are over -/
  | allOver {e₁ : Engine} : r.closing = false → Engine.Run w e e₁ →
      (∀ entry ∈ r.entries, e₁.Over entry.2) → Returns w r millis e e₁
  /-- the time has passed, and those that are not over will not go on -/
  | late {e₁ : Engine} : r.closing = false → Engine.Run w e e₁ → e.now + millis ≤ e₁.now →
      Returns w r millis e (r.signalAll e₁)

variable {w : World} {r : Registry} {e e' : Engine}

/-! ## Telling all of them -/

/-- Telling the consumers of a registry to stop is a run. -/
theorem run_signalAll (r : Registry) (e : Engine) : Engine.Run w e (r.signalAll e) := by
  rw [signalAll]
  induction r.entries generalizing e with
  | nil => exact .refl
  | cons entry entries ih => exact (Engine.Run.single (.act (.signal entry.2))).trans (ih _)

/-- It takes no time, and nothing else happens. -/
theorem signalAll_eq (r : Registry) (e : Engine) :
    r.signalAll e = { e with members := (r.signalAll e).members } := by
  rw [signalAll]
  induction r.entries generalizing e with
  | nil => rfl
  | cons entry entries ih => exact ih (e.signal entry.2)

/-- All of them have been told then. -/
theorem told_signalAll (hlt : ∀ entry ∈ r.entries, entry.2 < e.members.size) :
    ∀ entry ∈ r.entries, (r.signalAll e).Told entry.2 := by
  rw [signalAll]
  have hkept : ∀ (entries : List (String × Nat)) (e : Engine) (m : Nat), e.Told m →
      (entries.foldl (fun e entry => e.signal entry.2) e).Told m := by
    intro entries e m htold
    induction entries generalizing e with
    | nil => exact htold
    | cons entry entries ih => exact ih _ (htold.signal entry.2)
  generalize r.entries = entries at hlt ⊢
  induction entries generalizing e with
  | nil => exact nofun
  | cons entry entries ih =>
    intro entry' hmem
    rcases List.mem_cons.1 hmem with rfl | hmem
    · exact hkept entries _ _ (Engine.told_signal (hlt _ List.mem_cons_self))
    · refine ih ?_ entry' hmem
      intro entry'' hmem'
      have hsize : (e.signal entry.2).members.size = e.members.size := Array.size_modify
      exact hsize ▸ hlt entry'' (List.mem_cons_of_mem _ hmem')

/-! ## What always holds -/

/-- What always holds of a registry and its engine. -/
structure Keeps (w : World) (r : Registry) (e : Engine) : Prop where
  /-- the engine has come about in a run -/
  run : ∃ e₀ : Engine, e₀.IsFresh ∧ Engine.Run w e₀ e
  /-- the consumers of the registry are members -/
  lt_size : ∀ entry ∈ r.entries, entry.2 < e.members.size
  /-- there are none once it is shut down -/
  closed : r.closing = true → r.entries = []

theorem Keeps.sound (h : r.Keeps w e) : e.Sound := by
  obtain ⟨e₀, h₀, hrun⟩ := h.run
  exact Engine.sound_of_run h₀.sound hrun

theorem Keeps.step (h : r.Keeps w e) (hstep : Engine.Step w e e') : r.Keeps w e' where
  run := by
    obtain ⟨e₀, h₀, hrun⟩ := h.run
    exact ⟨e₀, h₀, hrun.tail hstep⟩
  lt_size entry hmem := by
    obtain ⟨member', hm', -⟩ :=
      Engine.memberTurn_of_step h.sound hstep (Array.getElem?_eq_getElem (h.lt_size entry hmem))
    exact (Array.getElem?_eq_some_iff.1 hm').1
  closed := h.closed

theorem Reach.run (h : r.Reach w e) (hrun : Engine.Run w e e') : r.Reach w e' := by
  induction hrun with
  | refl => exact h
  | tail _ hstep ih => exact ih.step hstep

theorem keeps_of_reach (h : r.Reach w e) : r.Keeps w e := by
  induction h with
  | @new e h₀ => exact ⟨⟨e, h₀, .refl⟩, nofun, nofun⟩
  | @spawn r e member _ ih =>
    rw [Registry.spawn]
    split
    · exact ih
    · rename_i hclosing
      have hkeeps := ih.step (.act (.start member))
      refine ⟨hkeeps.run, ?_, fun hclosed => absurd hclosed hclosing⟩
      intro entry hmem
      rcases List.mem_append.1 hmem with hmem | hmem
      · exact hkeeps.lt_size entry hmem
      · obtain rfl := List.mem_singleton.1 hmem
        have hsize : (e.members.push member).size = e.members.size + 1 := Array.size_push member
        exact hsize ▸ Nat.lt_succ_self _
  | step _ hstep ih => exact ih.step hstep
  | @shutdown r e _ ih =>
    rw [Registry.shutdown]
    split
    · exact ih
    · obtain ⟨e₀, h₀, hrun⟩ := ih.run
      exact ⟨⟨e₀, h₀, hrun.trans (run_signalAll r e)⟩, nofun, fun _ => rfl⟩

/-- When a call of `shutdown` returns, its consumers have been told to stop. -/
theorem Returns.told {millis : Nat} {e₁ : Engine} (hreturns : r.Returns w millis e e₁)
    (h : r.Reach w e) : Engine.Run w e e₁ ∧ ∀ entry ∈ r.entries, e₁.Told entry.2 := by
  cases hreturns with
  | again hclosing =>
    have hnone := (keeps_of_reach h).closed hclosing
    exact ⟨.refl, by simp [hnone]⟩
  | allOver _ hrun hover => exact ⟨hrun, fun entry hmem => (hover entry hmem).told⟩
  | late _ hrun =>
    exact ⟨hrun.trans (run_signalAll r _), told_signalAll (keeps_of_reach (h.run hrun)).lt_size⟩

/-- After a call of `shutdown` the registry holds nothing, and its consumers have been told to stop. -/
theorem Keeps.shutdown (h : r.Keeps w e) :
    (r.shutdown e).1 = ⟨[], true⟩ ∧ Engine.Run w e (r.shutdown e).2 ∧
      ∀ entry ∈ r.entries, (r.shutdown e).2.Told entry.2 := by
  rw [Registry.shutdown]
  split
  · rename_i hclosing
    have hnone := h.closed hclosing
    refine ⟨?_, .refl, by simp [hnone]⟩
    rw [← hnone, ← hclosing]
  · exact ⟨rfl, run_signalAll r e, told_signalAll h.lt_size⟩

/-- **Shutdown is final.**  Whatever the consumers of a registry are doing when it is shut down:

* The registry holds none from then on, and takes none: registering a consumer starts nothing, and
  another shutdown changes nothing.
* When the call has returned, however long it was to wait, none of its consumers asks to join any more.
* And when all tasks that could go on then have had their turn, no claim loop of these consumers takes
  a message, passes one over or enters one, and they get no other claim loops. -/
theorem shutdown_final (h : r.Reach w e) :
    (r.shutdown e).1 = ⟨[], true⟩ ∧
    (∀ e₁, (∀ member, (r.shutdown e).1.spawn member e₁ = ((r.shutdown e).1, e₁)) ∧
      (r.shutdown e).1.shutdown e₁ = ((r.shutdown e).1, e₁)) ∧
    ∀ millis e₁, r.Returns w millis e e₁ →
      (∀ e₂, Engine.Run w e₁ e₂ →
        ∃ news, e₂.events = news ++ e₁.events ∧ ∀ entry ∈ r.entries, .joining entry.2 ∉ news) ∧
      ∀ e₂ e₃, Engine.Run w e₁ e₂ → (∀ t, (e₁.step? w t).isSome = true → e₁.HadTurn w t e₂) →
        Engine.Run w e₂ e₃ →
        ∀ entry ∈ r.entries, ∀ (i : Nat) (l' : ClaimLoop), e₃.loops[i]? = some l' →
          l'.member = entry.2 → ∃ l, e₂.loops[i]? = some l ∧
            ClaimView.SameAccounts i (e₂.view i l) (e₃.view i l') := by
  have hkeeps := keeps_of_reach h
  obtain ⟨hr', -, -⟩ := hkeeps.shutdown
  refine ⟨hr', ?_, ?_⟩
  · intro e₁
    rw [hr']
    exact ⟨fun _ => rfl, rfl⟩
  intro millis e₁ hreturns
  obtain ⟨hrun₁, htold⟩ := hreturns.told h
  have hs₁ := Engine.sound_of_run hkeeps.sound hrun₁
  refine ⟨?_, ?_⟩
  · intro e₂ hrun₂
    obtain ⟨news, hnews⟩ := Engine.events_of_run hs₁ hrun₂
    refine ⟨news, hnews, ?_⟩
    intro entry hmem hjoining
    obtain ⟨-, news', hnews', hsilent⟩ := (htold entry hmem).run hs₁ hrun₂
    obtain rfl := List.append_cancel_right (hnews.symm.trans hnews')
    exact hsilent _ hjoining rfl
  · intro e₂ e₃ hrun₂ hturns hrun₃ entry hmem i l' hl' hlm
    have hs₂ := Engine.sound_of_run hs₁ hrun₂
    obtain ⟨e₀, h₀, hrun₀⟩ := hkeeps.run
    have hretires := Engine.retires_of_run h₀ ((hrun₀.trans hrun₁).trans hrun₂)
    -- it is over already, or could go on when the call returned
    have hover : e₂.Over entry.2 := by
      rcases (htold entry hmem).step? (w := w) with hover | ⟨e', hstep, -⟩
      · exact hover.run hs₁ hrun₂
      · exact (htold entry hmem).over_of_hadTurn hs₁ (hturns _ (by rw [hstep, Option.isSome_some]))
    exact hover.quiet hs₂ hretires hrun₃ hl' hlm

/-! ## A message that waits for a token -/

/-- One consumer is registered. -/
def single : Registry := (({} : Registry).spawn .sample {}).1

/-- It is member number 0. -/
theorem over_single (h : (e.members[0]?).map Member.isOver = some true) :
    ∀ entry ∈ single.entries, e.Over entry.2 := by
  have hentries : single.entries = [("t/g", 0)] := by decide +kernel
  intro entry hmem
  rw [hentries] at hmem
  obtain rfl := List.mem_singleton.1 hmem
  exact Option.map_eq_some_iff.1 h

/-- It has two messages with handlers, and a third that waits for a token. -/
def parked : Engine := Engine.play .holding (({} : Registry).spawn .sample {}).2
  [.act (.createTopic "t" 1), .task (.member 0), .task (.member 0),
    .act (.deliver ⟨"t", 0⟩ .empty ⟨[]⟩), .act (.deliver ⟨"t", 0⟩ .empty ⟨[]⟩),
    .act (.deliver ⟨"t", 0⟩ .empty ⟨[]⟩), .task (.loop 0), .task (.loop 0), .task (.loop 0),
    .task (.handling 0), .task (.handling 1)]

theorem reach_parked : single.Reach .holding parked :=
  ((Reach.new Engine.isFresh_empty).spawn .sample).run (Engine.run_play _ _)

/-- The registry is shut down, and the consumer stops. -/
def parkedStopped : Engine :=
  Engine.play .holding (single.shutdown parked).2 [.task (.member 0)]

theorem returns_parked : single.Returns .holding 10000 parked parkedStopped :=
  .allOver rfl ((run_signalAll single parked).trans (Engine.run_play _ _))
    (over_single (by decide +kernel))

/-- Only its claim loop can go on, and is dropped. -/
def parkedDropped : Engine := Engine.play .holding parkedStopped [.task (.loop 0)]

/-- Then a handler ends, and a token is free; a message comes in, and more time passes than it takes to
join again. -/
def afterwards : List Engine.Happening :=
  [.act (.release 0), .task (.handling 0), .task (.loop 0), .task (.member 0),
    .act (.deliver ⟨"t", 0⟩ .empty ⟨[]⟩), .pass 180000, .task (.member 0), .task (.loop 0)]

/-- The third message is never entered, and the consumer does not join again. -/
theorem shutdown_final_parked :
    (∃ news, (Engine.play .holding parkedDropped afterwards).events = news ++ parkedStopped.events ∧
      .joining 0 ∉ news) ∧
    ∃ l, (Engine.play .holding parkedDropped afterwards).loops[0]? = some l ∧
      ((Engine.play .holding parkedDropped afterwards).view 0 l).entered 0 = [1, 0] := by
  obtain ⟨-, -, hreturned⟩ := shutdown_final reach_parked
  obtain ⟨hsilent, hquiet⟩ := hreturned 10000 parkedStopped returns_parked
  have hmem : ("t/g", 0) ∈ single.entries := by decide +kernel
  have hrun₂ : Engine.Run .holding parkedStopped parkedDropped := Engine.run_play _ _
  have hrun₃ : Engine.Run .holding parkedDropped (Engine.play .holding parkedDropped afterwards) :=
    Engine.run_play _ _
  refine ⟨?_, ?_⟩
  · obtain ⟨news, hnews, hnot⟩ := hsilent _ (hrun₂.trans hrun₃)
    exact ⟨news, hnews, hnot _ hmem⟩
  · have hready : ∀ t ∈ parkedStopped.tasks, (parkedStopped.step? .holding t).isSome = true →
        t = .loop 0 := by decide +kernel
    have hturns : ∀ t, (parkedStopped.step? .holding t).isSome = true →
        parkedStopped.HadTurn .holding t parkedDropped := by
      intro t ht
      obtain ⟨e', he'⟩ := Option.isSome_iff_exists.1 ht
      obtain rfl := hready t (Engine.mem_tasks_of_step? he') ht
      refine ⟨parkedStopped, .refl, ?_⟩
      rw [← Engine.play_task]
      exact .refl
    have hloop : ((Engine.play .holding parkedDropped afterwards).loops[0]?).map ClaimLoop.member =
        some 0 := by decide +kernel
    obtain ⟨l', hl', hlm⟩ := Option.map_eq_some_iff.1 hloop
    obtain ⟨l, -, hsame⟩ := hquiet _ _ hrun₂ hturns hrun₃ _ hmem 0 l' hl' hlm
    refine ⟨l', hl', hsame.entered_eq.trans ?_⟩
    change parkedDropped.events.filterMap (Event.entered? 0) = [1, 0]
    decide +kernel

end Registry

end ConsumerGroup
