import ConsumerGroup.Engine.Run

/-!
# Scripts

A script says who goes on and what happens, line by line.  What comes of it can be computed, and it
is a run (`run_play`), so a script shows that something can happen.
-/

namespace ConsumerGroup

/-- A consumer of topic `t` for group `g` that redelivers nothing and waits a second for its
handlings. -/
def ConsumerConfig.sample (concurrency : Nat) (hpos : 0 < concurrency)
    (hle : concurrency ≤ maxConcurrency) : ConsumerConfig where
  groupId := "g"
  topic := "t"
  concurrency
  retryLimit := 0
  ladder := {}
  drainMillis := 1000
  concurrency_pos := hpos
  concurrency_le := hle
  ladder_ascending := rfl
  ladder_ne := Or.inl rfl

/-- A member that handles two messages at a time. -/
def Member.sample : Member := { config := .sample 2 (by decide) (by decide) }

/-- A world in which every handler waits until it is released. -/
def World.holding : World where
  freshTrace _ := default
  handler _ _ := [.hold]
  rest _ _ := 0

/-- A member whose failed messages are published once more to their own topic. -/
def Member.retrying : Member where
  config := {
    groupId := "g"
    topic := "t"
    concurrency := 2
    retryLimit := 1
    ladder := ⟨[1]⟩
    drainMillis := 1000
    concurrency_pos := by decide
    concurrency_le := by decide
    ladder_ascending := rfl
    ladder_ne := Or.inr rfl }

/-- A world in which every handler fails. -/
def World.failing : World where
  freshTrace _ := default
  handler _ _ := [.fail (.reported "")]
  rest _ _ := 0

namespace Engine

/-- One line of a script. -/
inductive Happening where
  /-- a task goes on, if it can -/
  | task (t : TaskId)
  /-- something happens from outside -/
  | act (a : Act)
  /-- so many milliseconds pass -/
  | pass (millis : Nat)

/-- What one line of a script comes to. -/
def happen (w : World) (e : Engine) : Happening → Engine
  | .task t => (e.step? w t).getD e
  | .act a => e.act a
  | .pass millis => { e with now := e.now + millis }

/-- What a script comes to. -/
def play (w : World) (e : Engine) (script : List Happening) : Engine := script.foldl (happen w) e

variable {w : World}

theorem play_append (w : World) (e : Engine) (script script' : List Happening) :
    play w e (script ++ script') = play w (play w e script) script' := List.foldl_append

/-- A script may be that one task has its turn. -/
theorem play_task (w : World) (e : Engine) (t : TaskId) :
    play w e [.task t] = (e.step? w t).getD e := rfl

/-- One line of a script is a run. -/
theorem run_happen (e : Engine) (line : Happening) : Run w e (happen w e line) := by
  cases line with
  | task t =>
    rw [happen]
    rcases ht : e.step? w t with _ | e'
    · exact .refl
    · exact .single (.task t ht)
  | act a => exact .single (.act a)
  | pass millis => exact .single (.tick _ (Nat.le_add_right _ _))

/-- A script is a run. -/
theorem run_play (script : List Happening) (e : Engine) : Run w e (play w e script) := by
  induction script generalizing e with
  | nil => exact .refl
  | cons line script ih => exact (run_happen e line).trans (ih _)

end Engine

end ConsumerGroup
