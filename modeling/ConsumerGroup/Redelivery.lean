import ConsumerGroup.ConsumerConfig
import ConsumerGroup.Envelope
import ConsumerGroup.Error
import ConsumerGroup.Metrics.Basic

/-!
# Redelivery

A message whose handler failed is published again, with its count one higher, to the topic that
holds it back for the delay of this attempt.  When the count has reached the limit it is dropped.

* `Redeliverer.plan` — what is to be done with a failed message.
* `Verdict.of` — what follows from the reply to a call of the producer: the call is made again, at
  most `maxPublishCalls` times, as long as the reply is an error that may pass.
* `Redeliverer.run` — all calls for one message, given the replies.
-/

namespace ConsumerGroup

/-- How often a failed message is handed to the producer at most. -/
def maxPublishCalls : Nat := 3

/-- What is to be done with a failed message. -/
inductive RedeliveryPlan where
  /-- nothing: it has been redelivered often enough -/
  | exhausted
  /-- publish this record, which is held back so many seconds -/
  | publish (delay : Nat) (record : Record)
  deriving DecidableEq

/-- What became of a failed message. -/
inductive RedeliveryOutcome where
  /-- it was published to that topic, to be held back so many seconds -/
  | redelivered (topic : String) (delay : Nat)
  /-- it was dropped -/
  | exhausted
  /-- it could not be published -/
  | publishFailed (error : BrokerError)
  deriving Repr, DecidableEq

/-- The name under which outcomes are counted. -/
def RedeliveryOutcome.label : RedeliveryOutcome → String
  | redelivered .. => "redelivered"
  | exhausted => "exhausted"
  | publishFailed _ => "publish_failed"

/-- What a consumer does with failed messages. -/
structure Redeliverer where
  /-- the topics that hold messages back -/
  delayTopics : DelayTopics
  /-- how often a message is redelivered -/
  retryLimit : Nat
  /-- how long it is held back each time -/
  ladder : DelayLadder

/-- What a configured consumer does with failed messages, given the topics that hold them back. -/
def ConsumerConfig.redelivererWith (c : ConsumerConfig) (topics : DelayTopics) : Redeliverer :=
  ⟨topics, c.retryLimit, c.ladder⟩

namespace Redeliverer

/-- The headers of the record that redelivers a message: it keeps the topic it came from first. -/
def headersFor (e : Envelope) : Headers :=
  let headers := e.redeliveryHeaders
  match (headers.get? Headers.topicKey).filter (· ≠ "") with
  | some _ => headers
  | none => headers.set Headers.topicKey e.topic

/-- What is to be done with a failed message. -/
def plan (r : Redeliverer) (e : Envelope) : RedeliveryPlan :=
  if r.retryLimit ≤ e.retryTimes then .exhausted
  else
    let delay := (r.ladder.delayFor? e.retryTimes).getD 0
    .publish delay {
      topic := r.delayTopics.resolve delay e.topic
      payload := e.payload
      headers := headersFor e }

end Redeliverer

/-! ## Calls of the producer -/

/-- What a producer answers when it is handed a record. -/
inductive Reply where
  /-- the record was taken -/
  | accepted
  /-- it was not taken -/
  | refused (error : BrokerError)
  /-- the producer panicked -/
  | panicked (text : String)
  deriving Repr, DecidableEq, Inhabited

/-- What follows from a reply. -/
inductive Verdict where
  /-- the record is handed over again, after a pause -/
  | again
  /-- the redelivery has ended -/
  | ended (outcome : RedeliveryOutcome)
  /-- the panic of the producer ended it without an outcome -/
  | unwound (text : String)
  deriving Repr, DecidableEq

/-- The verdict on the reply to call number `calls`. -/
def Verdict.of (topic : String) (delay calls : Nat) : Reply → Verdict
  | .accepted => .ended (.redelivered topic delay)
  | .refused error =>
    if error.isRetriable && calls < maxPublishCalls then .again else .ended (.publishFailed error)
  | .panicked text => .unwound text

/-- The name under which calls that are made again are counted. -/
def redeliveryPolicy : String := "redelivery"

/-- What a verdict on a message of that topic adds to the counts. -/
def Verdict.count (m : Metrics) (topic : String) : Verdict → Metrics
  | again => m.recordRetryAttempt redeliveryPolicy
  | ended outcome =>
    let m :=
      match outcome with
      | .redelivered .. => m.recordRetrySuccess redeliveryPolicy
      | .publishFailed _ => m.recordRetryExhausted redeliveryPolicy
      | .exhausted => m
    m.recordRedelivery topic outcome.label
  | unwound _ => m

/-- An account of a redelivery. -/
structure RedeliveryReport where
  /-- how often the producer was called -/
  calls : Nat
  /-- the records it took -/
  published : List Record
  /-- how it ended -/
  verdict : Verdict
  /-- the replies that were not needed -/
  left : List Reply
  /-- the counts afterwards -/
  metrics : Metrics

namespace Redeliverer

/-- Hands a record over until the verdict is final, after `calls` calls and with at most `more` calls
to make.  The producer gives the replies in order, and takes everything when they are used up. -/
def runCalls (m : Metrics) (source : String) (delay : Nat) (record : Record) (calls : Nat) :
    Nat → List Reply → RedeliveryReport
  | 0, replies => ⟨calls, [], .again, replies, m⟩
  | more + 1, replies =>
    let reply := replies.headD .accepted
    let verdict := Verdict.of record.topic delay (calls + 1) reply
    let m := verdict.count m source
    if verdict = .again then
      runCalls m source delay record (calls + 1) more replies.tail
    else
      ⟨calls + 1, if reply = .accepted then [record] else [], verdict, replies.tail, m⟩

/-- Redelivers a failed message. -/
def run (r : Redeliverer) (m : Metrics) (e : Envelope) (replies : List Reply) :
    RedeliveryReport :=
  match r.plan e with
  | .exhausted =>
    let verdict := Verdict.ended .exhausted
    ⟨0, [], verdict, replies, verdict.count m e.topic⟩
  | .publish delay record => runCalls m e.topic delay record 0 maxPublishCalls replies

end Redeliverer

end ConsumerGroup
