import ConsumerGroup.Broker.Basic
import ConsumerGroup.ConsumerConfig
import ConsumerGroup.Handler
import ConsumerGroup.Redelivery
import ConsumerGroup.TokenPool
import ConsumerGroup.Tracker

/-!
# The state of running consumers

Three kinds of tasks run side by side:

* a **member** joins a group and asks its session for claims; when the session ends it waits for its
  claim loops to end, and joins again after a while;
* a **claim loop** takes the messages of one claim, passes over those for other groups, and starts a
  handling for each of the others as soon as it gets a token;
* a **handling** runs the handler on one message, redelivers the message if that failed, and then
  completes it: it takes it out of the tracker, marks an offset if one is due, and gives the token
  back.

Tasks are never removed, so that a number names one for good.  A task runs until it has to wait; the
modules beside this one say what each kind does in one go.

## What is left out

* Joining, publishing and marking take no time: a task asks and has the answer in the same go.  What takes
  time is a handler, the pause between two calls of the producer, a drain, and the wait for the next join.
* A task that waits for several things looks at them in one order.  That a claim loop looks first whether
  it is cancelled is a rule; that a member looks first whether it is to stop is one of two orders that are
  possible, and what it may do in the other one is allowed for where the registry is shut down
  (`Registry.Returns`).
* The broker is the one in memory.  Clients of other brokers do not occur, with their metadata, their
  rebalances and their flow control; sessions and claims from outside, which may behave in any way that the
  acts `offerClaim`, `send`, `closeFeed` and `finishSession` allow, stand for what they bring.
* No log lines are written.
-/

namespace ConsumerGroup

/-- What a run depends on from outside. -/
structure World where
  /-- the trace id for the message that is taken as number `n` if it brings none -/
  freshTrace : Nat → TraceId
  /-- what the handler does in handling number `n` -/
  handler : Nat → Envelope → Handler.Program
  /-- how many milliseconds handling number `n` waits after its `k`-th call of the producer -/
  rest : Nat → Nat → Nat

/-! ## Claim loops -/

/-- Who uses the token pool of a claim. -/
inductive PoolUser where
  /-- its claim loop -/
  | loop
  /-- the handling of that number -/
  | handling (h : Nat)
  deriving Repr, DecidableEq

/-- How a claim loop ended. -/
inductive LoopEnd where
  /-- all its handlings had ended -/
  | drained
  /-- the time for its handlings to end was over -/
  | timedOut
  /-- a mark panicked -/
  | crashed
  /-- it was dropped with its member -/
  | dropped
  deriving Repr, DecidableEq

/-- Where a claim loop stands. -/
inductive LoopPhase where
  /-- it takes messages -/
  | receiving
  /-- it has taken a message and waits for a token -/
  | parked (e : Envelope)
  /-- it waits until that time for its handlings to end -/
  | draining (deadline : Nat)
  /-- it has ended -/
  | ended (how : LoopEnd)
  deriving DecidableEq

/-- A claim loop. -/
structure ClaimLoop where
  /-- the member that has the claim -/
  member : Nat
  /-- the group the member is in -/
  group : String
  /-- the partition -/
  source : TopicPartition
  /-- where the messages come from -/
  channel : ChannelId
  /-- how many milliseconds it waits for its handlings to end -/
  drainMillis : Nat
  /-- what is done with failed messages -/
  redeliverer : Redeliverer
  /-- the tokens of its handlings -/
  pool : TokenPool PoolUser
  /-- the messages in flight -/
  tracker : Tracker Envelope := {}
  /-- where it stands -/
  phase : LoopPhase := .receiving
  /-- whether it is to take no more messages -/
  cancelled : Bool := false
  /-- whether it is to be dropped -/
  aborted : Bool := false

/-- Whether a claim loop has ended. -/
def ClaimLoop.isEnded (l : ClaimLoop) : Bool :=
  match l.phase with
  | .ended _ => true
  | _ => false

/-! ## Handlings -/

/-- Where a handling stands. -/
inductive HandlingPhase where
  /-- the handler has not been called -/
  | fresh
  /-- the handler waits until it is released -/
  | held (rest : Handler.Program)
  /-- the handler is busy until that time -/
  | pausing (wakeAt : Nat) (rest : Handler.Program)
  /-- the producer has been called so often, and is called again at that time -/
  | resting (calls delay : Nat) (record : Record) (wakeAt : Nat)
  /-- the message is completed -/
  | done
  deriving DecidableEq

/-- The handling of one message. -/
structure Handling where
  /-- the claim loop that started it -/
  loop : Nat
  /-- the message -/
  envelope : Envelope
  /-- where it stands -/
  phase : HandlingPhase := .fresh
  /-- when the handler was called -/
  startedAt : Nat := 0
  deriving DecidableEq

/-- Whether the handler has been called and has not returned. -/
def Handling.isRunning (t : Handling) : Bool :=
  match t.phase with
  | .held _ | .pausing .. => true
  | _ => false

/-! ## Members -/

/-- Where a member stands. -/
inductive MemberPhase where
  /-- it is about to join -/
  | joining
  /-- it asks its session for claims -/
  | consuming (s : SessionId)
  /-- its session has ended so, and it waits for its claim loops -/
  | leaving (s : SessionId) (result : Option BrokerError)
  /-- it waits until that time to join again -/
  | backingOff (wakeAt : Nat)
  /-- it does not join again; its session ended so -/
  | finished (result : Option BrokerError)
  /-- it was stopped, or a join panicked -/
  | stopped
  deriving Repr, DecidableEq

/-- A consumer as a member of its group. -/
structure Member where
  /-- what it reads and how -/
  config : ConsumerConfig
  /-- the topics that hold its failed messages back -/
  delayTopics : DelayTopics := ∅
  /-- the cluster it joins at -/
  cluster : ClusterSpec := {}
  /-- whether it joins again when a session has ended -/
  rejoins : Bool := true
  /-- where it stands -/
  phase : MemberPhase := .joining
  /-- whether it is to stop -/
  signalled : Bool := false

/-- The name under which it is known: the topic and the group with a slash between them. -/
def Member.name (m : Member) : String := m.config.topic ++ "/" ++ m.config.groupId

/-- Whether it has come to its end. -/
def Member.isOver (m : Member) : Bool :=
  match m.phase with
  | .finished _ | .stopped => true
  | _ => false

/-- What it does with failed messages. -/
def Member.redeliverer (m : Member) : Redeliverer := m.config.redelivererWith m.delayTopics

/-! ## Everything together -/

/-- What happens in a run. -/
inductive Event where
  /-- a member asks to join -/
  | joining (member : Nat)
  /-- a member has got a claim, for which this loop runs -/
  | claimed (loop : Nat)
  /-- a message was taken from the claim -/
  | taken (loop : Nat) (offset : Offset)
  /-- a message was passed over -/
  | skipped (loop : Nat) (offset : Offset)
  /-- a message found no token -/
  | parked (loop : Nat) (offset : Offset)
  /-- a message got a token, and this handling -/
  | entered (loop : Nat) (offset : Offset) (handling : Nat)
  /-- a claim loop ended -/
  | ended (loop : Nat) (how : LoopEnd)
  /-- a handler was called -/
  | started (handling : Nat)
  /-- a handler returned -/
  | returned (handling : Nat) (outcome : Handler.Outcome)
  /-- the producer was called -/
  | called (handling : Nat) (reply : Reply)
  /-- a message was completed -/
  | completed (handling : Nat)
  /-- an offset was marked -/
  | marked (loop : Nat) (offset : Offset)
  /-- a session of a member is over, with all its claim loops -/
  | left (member : Nat) (result : Option BrokerError)
  /-- a member is going to join again -/
  | restarting (member : Nat) (reason : RestartReason)
  deriving Repr, DecidableEq

/-- All running consumers, with the broker and the clock. -/
structure Engine where
  /-- the time in milliseconds -/
  now : Nat := 0
  /-- the broker -/
  broker : Broker := {}
  /-- the members -/
  members : Array Member := #[]
  /-- the claim loops -/
  loops : Array ClaimLoop := #[]
  /-- the handlings -/
  handlings : Array Handling := #[]
  /-- the counts -/
  metrics : Metrics := {}
  /-- what the producer answers next; after that it hands records to the broker -/
  replies : List Reply := []
  /-- how many of the next marks panic -/
  markPanics : Nat := 0
  /-- how many of the next joins panic -/
  joinPanics : Nat := 0
  /-- how many messages were taken from claims -/
  taken : Nat := 0
  /-- the handlings that wait to be released, the one that has waited longest first -/
  holding : List Nat := []
  /-- what has happened and when, the latest first -/
  journal : List (Nat × Event) := []

namespace Engine

instance : Inhabited Engine := ⟨{}⟩

/-- Puts a claim loop in the place of one. -/
def setLoop (e : Engine) (i : Nat) (l : ClaimLoop) : Engine :=
  { e with loops := e.loops.setIfInBounds i l }

/-- Puts a handling in the place of one. -/
def setHandling (e : Engine) (h : Nat) (t : Handling) : Engine :=
  { e with handlings := e.handlings.setIfInBounds h t }

/-- Puts a member in the place of one. -/
def setMember (e : Engine) (m : Nat) (member : Member) : Engine :=
  { e with members := e.members.setIfInBounds m member }

/-- Notes that something happens now. -/
def note (e : Engine) (event : Event) : Engine := { e with journal := (e.now, event) :: e.journal }

/-- Marks an offset for a claim loop, unless that panics.  Tells whether it was marked. -/
def mark (e : Engine) (i : Nat) (l : ClaimLoop) (o : Offset) : Bool × Engine :=
  if 0 < e.markPanics then (false, { e with markPanics := e.markPanics - 1 })
  else
    (true, note { e with
      broker := e.broker.mark l.group l.source o
      metrics := e.metrics.setCommitted l.source o } (.marked i o))

end Engine

end ConsumerGroup
