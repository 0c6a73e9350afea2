import ConsumerGroup.Headers

/-!
# Messages and records

A topic is a set of partitions and a partition a log of messages, each at an offset.  A message is
what a log holds; a record is what is handed to a broker to become one.
-/

namespace ConsumerGroup

/-- The place of a message in the log of its partition.  Committing `n` says that everything below
`n` is done and that `n` is read next.

Offsets are integers without bounds.  As long as those of the messages are below the largest one that
fits 64 bits, so that one more still fits, watermarks and marks fit as well: `Tracker.high_next_le` and
`Engine.low_le_maxOffset` say so of a tracker and of a claim. -/
abbrev Offset := Int

/-- Offsets of messages in a log are not negative. -/
def Offset.isValid (o : Offset) : Bool := 0 ≤ o

/-- The offset after this one. -/
def Offset.next (o : Offset) : Offset := o + 1

/-- The index of a partition within its topic. -/
abbrev Partition := Int

/-- One partition of one topic. -/
structure TopicPartition where
  /-- the topic -/
  topic : String
  /-- the index of the partition -/
  partition : Partition
  deriving Repr, DecidableEq, Inhabited

/-- The topic and the partition with a slash between them. -/
def TopicPartition.text (tp : TopicPartition) : String := tp.topic ++ "/" ++ toString tp.partition

/-- Contents are equal when their bytes are. -/
instance decEqContent : DecidableEq ByteArray := fun a b =>
  if h : a.data = b.data then .isTrue (by cases a; cases b; cases h; rfl)
  else .isFalse fun he => h (congrArg ByteArray.data he)

/-- A message of a partition log. -/
structure Message where
  /-- where it is in its log -/
  offset : Offset
  /-- its content -/
  payload : ByteArray
  /-- its headers -/
  headers : Headers
  /-- when the broker took it, in milliseconds of the common epoch -/
  timestamp : Option Int := none
  deriving DecidableEq, Inhabited

/-- A record to publish. -/
structure Record where
  /-- the topic it goes to -/
  topic : String
  /-- its content -/
  payload : ByteArray
  /-- its headers -/
  headers : Headers
  deriving DecidableEq, Inhabited

end ConsumerGroup
