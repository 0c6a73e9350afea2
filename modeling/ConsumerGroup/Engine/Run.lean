import ConsumerGroup.Engine.Scheduler

/-!
# Runs

What can happen to running consumers, whoever chooses:

* some task goes on, whichever that is;
* something happens from outside (`Act`): messages come in, sessions end, a handler is released, a
  consumer is started or told to stop, the producer is told what to answer;
* time passes.

`Step` is one of these, and `Run` any number of them, one after the other.  What holds after every run
holds whatever the order in which tasks go on, and however late they do.

Main statements: `run_settle`, `run_passDeadlines` and `run_releaseAll` say that what the scheduler
does is such a run.
-/

namespace ConsumerGroup

/-- What happens from outside. -/
inductive Act where
  /-- a topic is made -/
  | createTopic (topic : String) (partitions : Nat)
  /-- a message comes in -/
  | deliver (source : TopicPartition) (payload : ByteArray) (headers : Headers)
  /-- the live session of a group ends -/
  | closeGroup (group : String) (how : SessionEnd)
  /-- the next join is to meet an error -/
  | failNextJoin (error : BrokerError)
  /-- so many records are to be refused -/
  | failNextPublishes (n : Nat)
  /-- a session from outside ends -/
  | finishSession (s : SessionId) (how : SessionEnd)
  /-- a session from outside hands out a claim, on which some messages have come in -/
  | offerClaim (s : SessionId) (source : TopicPartition) (capacity : Nat) (backlog : List Message)
  /-- a message comes in for one claim -/
  | send (c : ChannelId) (m : Message)
  /-- a claim gets nothing more -/
  | closeFeed (c : ChannelId)
  /-- the producer is to answer so -/
  | script (replies : List Reply)
  /-- so many marks are to panic -/
  | panicMarks (n : Nat)
  /-- so many joins are to panic -/
  | panicJoins (n : Nat)
  /-- a handler is released -/
  | release (h : Nat)
  /-- a consumer is started -/
  | start (member : Member)
  /-- a consumer is told to stop -/
  | signal (m : Nat)

namespace Engine

/-- What something that happens from outside comes to. -/
def act (e : Engine) : Act → Engine
  | .createTopic topic partitions => { e with broker := e.broker.createTopic topic partitions }
  | .deliver source payload headers =>
    match e.broker.append e.now source payload headers with
    | .ok (_, broker) => { e with broker }
    | .error _ => e
  | .closeGroup group how => { e with broker := e.broker.closeGroup group how }
  | .failNextJoin error => { e with broker := e.broker.failNextJoin error }
  | .failNextPublishes n => { e with broker := e.broker.failNextPublishes n }
  | .finishSession s how => { e with broker := e.broker.finishSession s how }
  | .offerClaim s source capacity backlog =>
    { e with broker := (e.broker.offerClaim s source (.ofBacklog capacity backlog)).2 }
  | .send c m => { e with broker := e.broker.modifyChannel c (·.send m) }
  | .closeFeed c => { e with broker := e.broker.modifyChannel c Channel.closeFeed }
  | .script replies => { e with replies := e.replies ++ replies }
  | .panicMarks n => { e with markPanics := n }
  | .panicJoins n => { e with joinPanics := n }
  | .release h => e.releaseHandling h
  | .start member => { e with members := e.members.push member }
  | .signal m => e.signal m

/-- What may happen next. -/
inductive Step (w : World) : Engine → Engine → Prop where
  /-- a task goes on -/
  | task {e e' : Engine} (t : TaskId) : e.step? w t = some e' → Step w e e'
  /-- something happens from outside -/
  | act {e : Engine} (a : Act) : Step w e (e.act a)
  /-- time passes -/
  | tick {e : Engine} (t : Nat) : e.now ≤ t → Step w e { e with now := t }

/-- What may happen in the course of time. -/
inductive Run (w : World) : Engine → Engine → Prop where
  /-- nothing -/
  | refl {e : Engine} : Run w e e
  /-- one more step -/
  | tail {e e' e'' : Engine} : Run w e e' → Step w e' e'' → Run w e e''

variable {w : World}

namespace Run

/-- A step is a run. -/
theorem single {e e' : Engine} (h : Step w e e') : Run w e e' := refl.tail h

/-- Runs follow each other. -/
theorem trans {e e' e'' : Engine} (h : Run w e e') (h' : Run w e' e'') : Run w e e'' := by
  induction h' with
  | refl => exact h
  | tail _ hs ih => exact ih.tail hs

/-- What every step keeps, every run keeps. -/
theorem keeps {P : Engine → Prop} (hstep : ∀ e e', P e → Step w e e' → P e') {e e' : Engine}
    (h : Run w e e') (he : P e) : P e' := by
  induction h with
  | refl => exact he
  | tail _ hs ih => exact hstep _ _ ih hs

end Run

/-! ## The scheduler makes runs -/

/-- Letting the tasks of a queue go on is a run, whatever the queue. -/
theorem run_run (n : Nat) (queue : List TaskId) (e : Engine) : Run w e (run w n queue e) := by
  induction n generalizing queue e with
  | zero => exact .refl
  | succ n ih =>
    cases queue with
    | nil => exact .refl
    | cons t queue =>
      rw [run]
      split
      · exact ih queue e
      · rename_i e' he
        exact (Run.single (.task t he)).trans (ih _ e')

/-- Letting all tasks go on until nobody can is a run. -/
theorem run_settle (e : Engine) : Run w e (settle w e) := run_run _ _ e

/-- A deadline that comes next has not passed. -/
theorem le_of_nextDeadline? {e : Engine} {limit t : Nat} (h : e.nextDeadline? limit = some t) :
    e.now ≤ t ∧ t ≤ limit := by
  have hmem := List.min?_mem h
  rw [List.mem_filter, Bool.and_eq_true, decide_eq_true_eq, decide_eq_true_eq] at hmem
  exact ⟨Nat.le_of_lt hmem.2.1, hmem.2.2⟩

/-- Passing deadlines is a run: the clock moves to a deadline, and tasks go on until nobody can. -/
theorem run_passDeadlines (limit n : Nat) (e : Engine) : Run w e (passDeadlines w limit n e) := by
  induction n generalizing e with
  | zero => exact .refl
  | succ n ih =>
    rw [passDeadlines]
    split
    · exact .refl
    · rename_i t ht
      have htick : Run w e { e with now := t } := .single (.tick t (le_of_nextDeadline? ht).1)
      exact (htick.trans (run_settle _)).trans (ih _)

/-- Releasing handlers one after the other is a run. -/
theorem run_foldl_release (holding : List Nat) (e : Engine) :
    Run w e (holding.foldl releaseHandling e) := by
  induction holding generalizing e with
  | nil => exact .refl
  | cons h holding ih => exact (Run.single (.act (.release h))).trans (ih _)

/-- Releasing all handlers that wait is a run. -/
theorem run_releaseAll (e : Engine) : Run w e (releaseAll w e).2 :=
  (run_foldl_release e.holding e).trans (run_run _ _ _)

end Engine

end ConsumerGroup
