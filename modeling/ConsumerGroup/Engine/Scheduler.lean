import ConsumerGroup.Engine.Handling
import ConsumerGroup.Engine.ClaimLoop
import ConsumerGroup.Engine.Member

/-!
# The scheduler

One task runs at a time, until it has to wait.  Tasks that can go on queue up in the order in which
they became able to; a task that finds itself able to go on keeps running.  Time passes only when
nobody can go on.

`Engine.step?` is what one task does in one go; which task goes on next is the choice of the
scheduler, and `Engine.settle` is the choice described above.
-/

namespace ConsumerGroup

/-- The name of a task. -/
inductive TaskId where
  /-- a member -/
  | member (m : Nat)
  /-- a claim loop -/
  | loop (i : Nat)
  /-- a handling -/
  | handling (h : Nat)
  deriving Repr, DecidableEq

namespace Engine

/-- A task goes on, unless it has to wait or is over. -/
def step? (w : World) (e : Engine) : TaskId → Option Engine
  | .member m => e.stepMember? m
  | .loop i => e.stepLoop? w i
  | .handling h => e.stepHandling? w h

/-- All tasks. -/
def tasks (e : Engine) : List TaskId :=
  (List.range e.members.size).map .member
    ++ (List.range e.loops.size).map .loop
    ++ (List.range e.handlings.size).map .handling

/-- Queues the tasks that can go on and are not in the queue. -/
def wake (w : World) (queue : List TaskId) (e : Engine) : List TaskId :=
  queue ++ e.tasks.filter fun t => !queue.contains t && (e.step? w t).isSome

/-- Lets the tasks of a queue go on, and those that become able to, at most so many times. -/
def run (w : World) : Nat → List TaskId → Engine → Engine
  | 0, _, e => e
  | _ + 1, [], e => e
  | n + 1, t :: queue, e =>
    match e.step? w t with
    | none => run w n queue e
    -- The task keeps its place at the front; whoever it woke queues up behind the others.
    | some e' => run w n (wake w (t :: queue) e') e'

/-- How often tasks go on before a run is given up as endless. -/
def runLimit : Nat := 1000000000

/-- Lets the tasks of a queue go on, after them all others that can, until nobody can. -/
def settleFrom (w : World) (queue : List TaskId) (e : Engine) : Engine :=
  run w runLimit (wake w queue e) e

/-- Lets all tasks go on until nobody can. -/
def settle (w : World) (e : Engine) : Engine := settleFrom w [] e

/-! ## Time -/

/-- When a claim loop stops waiting. -/
def LoopPhase.deadline? : LoopPhase → Option Nat
  | .draining deadline => some deadline
  | _ => none

/-- When a handling stops waiting. -/
def HandlingPhase.deadline? : HandlingPhase → Option Nat
  | .pausing wakeAt _ => some wakeAt
  | .resting _ _ _ wakeAt => some wakeAt
  | _ => none

/-- When a member stops waiting. -/
def MemberPhase.deadline? : MemberPhase → Option Nat
  | .backingOff wakeAt => some wakeAt
  | _ => none

/-- The times for which somebody waits. -/
def deadlines (e : Engine) : List Nat :=
  e.members.toList.filterMap (MemberPhase.deadline? ·.phase)
    ++ e.loops.toList.filterMap (LoopPhase.deadline? ·.phase)
    ++ e.handlings.toList.filterMap (HandlingPhase.deadline? ·.phase)

/-- The next such time that is still to come, but not after `limit`. -/
def nextDeadline? (e : Engine) (limit : Nat) : Option Nat :=
  (e.deadlines.filter fun t => e.now < t && t ≤ limit).min?

/-- Passes the deadlines up to a limit one after the other, at most so many. -/
def passDeadlines (w : World) (limit : Nat) : Nat → Engine → Engine
  | 0, e => e
  | n + 1, e =>
    match e.nextDeadline? limit with
    | none => e
    | some t => passDeadlines w limit n (settle w { e with now := t })

/-- Lets so many milliseconds pass. -/
def advance (w : World) (millis : Nat) (e : Engine) : Engine :=
  { passDeadlines w (e.now + millis) millis e with now := e.now + millis }

/-! ## Handlers that wait -/

/-- Releases the handler of a handling. -/
def releaseHandling (e : Engine) (h : Nat) : Engine :=
  let e := { e with holding := e.holding.erase h }
  match e.handlings[h]? with
  | some t =>
    match t.phase with
    | .held rest => e.setHandling h { t with phase := .pausing e.now rest }
    | _ => e
  | none => e

/-- The handling that has waited longest to be released among those of a content. -/
def holder? (e : Engine) (payload : String) : Option Nat :=
  e.holding.find? fun h => (e.handlings[h]?).any (·.envelope.payloadText == payload)

/-- Releases the handler that has waited longest on a content.  Tells whether there was one. -/
def release (w : World) (payload : String) (e : Engine) : Bool × Engine :=
  match e.holder? payload with
  | some h => (true, settle w (e.releaseHandling h))
  | none => (false, e)

/-- Releases all handlers that wait.  Tells how many. -/
def releaseAll (w : World) (e : Engine) : Nat × Engine :=
  (e.holding.length,
    settleFrom w (e.holding.map .handling) (e.holding.foldl releaseHandling e))

end Engine

end ConsumerGroup
