import ConsumerGroup.Proofs.Engine.Scripts

/-!
# Time that passes while nobody can go on

In a run the clock may do as it likes.  Here time passes only when all tasks wait, and it stops at
each time for which one of them waits, so nobody is late.

* `Engine.AtRest` — nobody can go on.
* `Engine.OnTime` — a run in which nobody is late.
* `OnTime.play` — a script in which nobody is late is such a run.
-/

namespace ConsumerGroup.Engine

variable {w : World} {e e' : Engine}

/-- Nobody can go on. -/
def AtRest (w : World) (e : Engine) : Prop := ∀ t, e.step? w t = none

/-- Who can go on is a task. -/
theorem mem_tasks_of_step? {t : TaskId} (h : e.step? w t = some e') : t ∈ e.tasks := by
  simp only [tasks, List.mem_append, List.mem_map, List.mem_range]
  cases t with
  | member m =>
    rcases Nat.lt_or_ge m e.members.size with hlt | hge
    · exact Or.inl (Or.inl ⟨m, hlt, rfl⟩)
    · simp [step?, stepMember?, Array.getElem?_eq_none hge] at h
  | loop i =>
    rcases Nat.lt_or_ge i e.loops.size with hlt | hge
    · exact Or.inl (Or.inr ⟨i, hlt, rfl⟩)
    · simp [step?, stepLoop?, Array.getElem?_eq_none hge] at h
  | handling n =>
    rcases Nat.lt_or_ge n e.handlings.size with hlt | hge
    · exact Or.inr ⟨n, hlt, rfl⟩
    · simp [step?, stepHandling?, Array.getElem?_eq_none hge] at h

/-- It is enough to look at the tasks there are. -/
theorem atRest_iff : e.AtRest w ↔ ∀ t ∈ e.tasks, (e.step? w t).isNone = true := by
  refine ⟨fun h t _ => by rw [h t, Option.isNone_none], fun h t => ?_⟩
  rcases ht : e.step? w t with _ | e'
  · rfl
  · have hnone := h t (mem_tasks_of_step? ht)
    rw [ht] at hnone
    cases hnone

instance : Decidable (e.AtRest w) := decidable_of_iff _ atRest_iff.symm

/-- Time may pass until `t`: nobody can go on, and nobody waits for an earlier time. -/
structure MayPass (w : World) (e : Engine) (t : Nat) : Prop where
  /-- nobody can go on -/
  atRest : e.AtRest w
  /-- time does not go back -/
  now_le : e.now ≤ t
  /-- nobody is late -/
  le_deadline : ∀ d ∈ e.deadlines, e.now < d → t ≤ d

instance (t : Nat) : Decidable (e.MayPass w t) :=
  decidable_of_iff (e.AtRest w ∧ e.now ≤ t ∧ ∀ d ∈ e.deadlines, e.now < d → t ≤ d)
    ⟨fun ⟨h, h', h''⟩ => ⟨h, h', h''⟩, fun h => ⟨h.atRest, h.now_le, h.le_deadline⟩⟩

/-- A run in which nobody is late. -/
inductive OnTime (w : World) : Engine → Engine → Prop where
  /-- nothing happens -/
  | refl {e : Engine} : OnTime w e e
  /-- a task goes on -/
  | task {e e' e'' : Engine} (t : TaskId) : OnTime w e e' → e'.step? w t = some e'' → OnTime w e e''
  /-- something happens from outside -/
  | act {e e' : Engine} (a : Act) : OnTime w e e' → OnTime w e (e'.act a)
  /-- time passes -/
  | tick {e e' : Engine} (t : Nat) : OnTime w e e' → e'.MayPass w t → OnTime w e { e' with now := t }

theorem OnTime.run (h : OnTime w e e') : Run w e e' := by
  induction h with
  | refl => exact .refl
  | task t _ ht ih => exact ih.tail (.task t ht)
  | act a _ ih => exact ih.tail (.act a)
  | tick t _ ht ih => exact ih.tail (.tick t ht.now_le)

theorem OnTime.trans {e'' : Engine} (h : OnTime w e e') (h' : OnTime w e' e'') : OnTime w e e'' := by
  induction h' with
  | refl => exact h
  | task t _ ht ih => exact ih.task t ht
  | act a _ ih => exact ih.act a
  | tick t _ ht ih => exact ih.tick t ht

/-! ## Scripts -/

/-- Nobody is late when one line of a script happens. -/
def Happening.IsOnTime (w : World) (e : Engine) : Happening → Prop
  | .pass millis => e.MayPass w (e.now + millis)
  | _ => True

instance : (line : Happening) → Decidable (line.IsOnTime w e)
  | .pass millis => inferInstanceAs (Decidable (e.MayPass w (e.now + millis)))
  | .task _ | .act _ => inferInstanceAs (Decidable True)

/-- Nobody is late in a whole script. -/
def AllOnTime (w : World) (e : Engine) : List Happening → Prop
  | [] => True
  | line :: script => line.IsOnTime w e ∧ (happen w e line).AllOnTime w script

instance decidableAllOnTime (w : World) :
    (script : List Happening) → (e : Engine) → Decidable (e.AllOnTime w script)
  | [], _ => inferInstanceAs (Decidable True)
  | line :: script, e =>
    haveI := decidableAllOnTime w script (happen w e line)
    inferInstanceAs (Decidable (line.IsOnTime w e ∧ _))

/-- A script in which nobody is late is such a run. -/
theorem OnTime.play {script : List Happening} (h : e.AllOnTime w script) :
    OnTime w e (play w e script) := by
  induction script generalizing e with
  | nil => exact .refl
  | cons line script ih =>
    refine OnTime.trans ?_ (ih h.2)
    cases line with
    | task t =>
      rw [happen]
      rcases ht : e.step? w t with _ | e'
      · exact .refl
      · exact OnTime.refl.task t ht
    | act a => exact OnTime.refl.act a
    | pass millis => exact OnTime.refl.tick _ h.1

end ConsumerGroup.Engine
