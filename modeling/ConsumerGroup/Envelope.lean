import ConsumerGroup.Message
import ConsumerGroup.Text.Numeral
import ConsumerGroup.Text.Utf8
import ConsumerGroup.Trace

/-!
# Envelopes

An envelope is a message as a consumer sees it: the message, the partition it was read from, and
what its headers say about it, read once.
-/

namespace ConsumerGroup

/-- The largest redelivery count a header can carry. -/
def maxRetryTimes : Nat := 4294967295

/-- The count after another one.  The largest count has no next one: where sums are checked it is a panic
to ask for it, and where they are not they start over at zero, as here. -/
def nextRetryTimes (n : Nat) : Nat := (n + 1) % (maxRetryTimes + 1)

theorem nextRetryTimes_of_lt {n : Nat} (h : n < maxRetryTimes) : nextRetryTimes n = n + 1 :=
  Nat.mod_eq_of_lt (Nat.succ_lt_succ h)

/-- The redelivery count a header value stands for: a numeral between blanks, else zero. -/
def readRetryTimes (value : Option String) : Nat :=
  (value.bind fun v => Text.readNumeral? maxRetryTimes (Text.trim v)).getD 0

/-- A message read from a partition. -/
structure Envelope where
  /-- the partition it was read from -/
  source : TopicPartition
  /-- where it is in the log -/
  offset : Offset
  /-- its content -/
  payload : ByteArray
  /-- its headers -/
  headers : Headers
  /-- when the broker took it, in milliseconds of the common epoch -/
  timestamp : Option Int
  /-- how often it has been redelivered -/
  retryTimes : Nat
  /-- the trace it belongs to -/
  trace : TraceId
  deriving DecidableEq

namespace Envelope

/-- The envelope of a message read from `source`, in the trace its headers name or else in the fresh
one. -/
def ofMessage (fresh : TraceId) (source : TopicPartition) (m : Message) : Envelope where
  source
  offset := m.offset
  payload := m.payload
  headers := m.headers
  timestamp := m.timestamp
  retryTimes := readRetryTimes (m.headers.get? Headers.retryKey)
  trace := TraceId.ofHeader fresh (m.headers.get? Headers.traceKey)

@[simp] theorem offset_ofMessage (fresh : TraceId) (source : TopicPartition) (m : Message) :
    (ofMessage fresh source m).offset = m.offset := rfl

variable (e : Envelope)

/-- The topic it was read from. -/
def topic : String := e.source.topic

/-- The partition it was read from. -/
def partition : Partition := e.source.partition

/-- The content as text. -/
def payloadText : String := Text.decodeLossy e.payload

/-- The first value of a header, unless it is empty. -/
def headerNonempty? (key : String) : Option String :=
  (e.headers.get? key).filter (· ≠ "")

/-- The group it is addressed to, if it is addressed to one. -/
def group? : Option String := e.headerNonempty? Headers.groupKey

/-- The topic it was first published to, as far as the headers tell. -/
def originTopic : String := (e.headerNonempty? Headers.topicKey).getD e.topic

/-- Whether a consumer of that group handles it: it is addressed to nobody, or to a group whose name
the consumer's group starts with. -/
def isAddressedTo (group : String) : Bool :=
  match e.group? with
  | some addressee => addressee.toList.isPrefixOf group.toList
  | none => true

/-- The headers of the next redelivery: the next count, and the trace kept. -/
def redeliveryHeaders : Headers :=
  (e.headers.set Headers.retryKey (Nat.repr (nextRetryTimes e.retryTimes))).set
    Headers.traceKey e.trace.text

/-- How many milliseconds before `now` the broker took it, zero if that lies ahead. -/
def latency? (now : Int) : Option Nat := e.timestamp.map fun t => (now - t).toNat

end Envelope

end ConsumerGroup
