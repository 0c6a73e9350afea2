import ConsumerGroup.Delay
import ConsumerGroup.Envelope
import ConsumerGroup.Error

/-!
# Publishing

An application publishes messages that name the group they are for.  The record carries the headers
that consumers read, and goes to the topic that holds it back if a delay is asked for.
-/

namespace ConsumerGroup

/-- A message to publish. -/
structure OutgoingMessage where
  /-- the topic it is meant for -/
  topic : String
  /-- how the groups it is for start -/
  group : String
  /-- how many seconds it is to be held back -/
  delay : Nat := 0
  /-- its content -/
  body : ByteArray
  deriving DecidableEq

namespace OutgoingMessage

/-- The record that publishes the message. -/
def record (m : OutgoingMessage) (delayTopics : DelayTopics) (trace : TraceId) :
    Except ConsumerError Record :=
  if Text.isBlankText m.group then .error .emptyGroup
  else .ok {
    topic := delayTopics.resolve m.delay m.topic
    payload := m.body
    headers := ((((Headers.push {} Headers.groupKey m.group).push Headers.topicKey m.topic).push
      Headers.traceKey trace.text).push Headers.retryKey "0") }

/-- Publishes the message, in whatever way `publish` does that with a record. -/
def send {f : Type → Type} [Monad f] (m : OutgoingMessage) (delayTopics : DelayTopics)
    (trace : TraceId) (publish : Record → f (Except BrokerError Unit)) :
    f (Except ConsumerError Unit) :=
  match m.record delayTopics trace with
  | .error e => pure (.error e)
  | .ok record => do
    match ← publish record with
    | .ok () => pure (.ok ())
    | .error e => pure (.error (.broker e))

end OutgoingMessage

end ConsumerGroup
