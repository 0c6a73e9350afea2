import ConsumerGroup.Engine.State

/-!
# What a handling can do

A handling looks at its own state, at the handler and at what the producer answers:

* `Handling.Calls` — what one call of the producer comes to.
* `Handling.Runs` — what the rest of the handler's program comes to.
* `Handling.Step` — what a handling does in one go.

Each tells where the handling stands afterwards, or nothing when the message is to be completed, and
what is noted in the journal, the latest first.
-/

namespace ConsumerGroup.Handling

variable (w : World) (h now : Nat)

/-- What handing a record to the producer comes to after `calls` calls. -/
inductive Calls (calls delay : Nat) (record : Record) : Option HandlingPhase → List Event → Prop where
  /-- the producer is called again after a rest -/
  | again {reply : Reply} : Verdict.of record.topic delay (calls + 1) reply = .again →
      Calls calls delay record
        (some (.resting (calls + 1) delay record (now + w.rest h (calls + 1)))) [.called h reply]
  /-- the redelivery has ended -/
  | ended {reply : Reply} : Verdict.of record.topic delay (calls + 1) reply ≠ .again →
      Calls calls delay record none [.called h reply]

/-- What the rest of the handler's program comes to. -/
inductive Runs (r : Redeliverer) (env : Envelope) :
    Handler.Program → Option HandlingPhase → List Event → Prop where
  /-- the handler succeeds -/
  | succeeds : Runs r env [] none [.returned h none]
  /-- the handler fails, and the message is not redelivered -/
  | exhausted {failure : HandlerFailure} {rest : Handler.Program} : r.plan env = .exhausted →
      Runs r env (.fail failure :: rest) none [.returned h (some failure)]
  /-- the handler fails, and the message is redelivered -/
  | redelivers {failure : HandlerFailure} {rest : Handler.Program} {delay : Nat} {record : Record}
      {phase? : Option HandlingPhase} {events : List Event} : r.plan env = .publish delay record →
      Calls w h now 0 delay record phase? events →
      Runs r env (.fail failure :: rest) phase? (events ++ [.returned h (some failure)])
  /-- the handler waits until it is released -/
  | holds {rest : Handler.Program} : Runs r env (.hold :: rest) (some (.held rest)) []
  /-- the handler is busy for a while -/
  | pauses {millis : Nat} {rest : Handler.Program} :
      Runs r env (.pause millis :: rest) (some (.pausing (now + millis) rest)) []

/-- What handling number `h` does in one go, with the time at which its handler was called. -/
inductive Step (r : Redeliverer) (t : Handling) :
    Option HandlingPhase → Nat → List Event → Prop where
  /-- the handler is called -/
  | starts {phase? : Option HandlingPhase} {events : List Event} : t.phase = .fresh →
      Runs w h now r t.envelope (w.handler h t.envelope) phase? events →
      Step r t phase? now (events ++ [.started h])
  /-- the handler is no longer busy -/
  | wakes {wakeAt : Nat} {rest : Handler.Program} {phase? : Option HandlingPhase}
      {events : List Event} : t.phase = .pausing wakeAt rest → wakeAt ≤ now →
      Runs w h now r t.envelope rest phase? events → Step r t phase? t.startedAt events
  /-- the producer is called once more -/
  | calls {calls delay wakeAt : Nat} {record : Record} {phase? : Option HandlingPhase}
      {events : List Event} : t.phase = .resting calls delay record wakeAt → wakeAt ≤ now →
      Calls w h now calls delay record phase? events → Step r t phase? t.startedAt events

end ConsumerGroup.Handling
