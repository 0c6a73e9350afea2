import ConsumerGroup.Message
import ConsumerGroup.Table

/-!
# Messages in flight

Handlers of one partition run at the same time and end in any order.  The tracker knows which
messages are in flight and from that up to where everything is done:

* the *high watermark* is the largest offset seen, and `-1` before the first;
* the *low watermark* is the smallest offset in flight, or the one after the high watermark when
  nothing is in flight.

The low watermark is computed anew only when the message at it completes.
-/

namespace ConsumerGroup

/-- The messages of a partition that are in flight, each with what `α` holds of it. -/
structure Tracker (α : Type) where
  /-- the messages by offset -/
  inFlight : Table Offset α := ∅
  /-- the smallest offset that is not done -/
  low : Offset := 0
  /-- the largest offset seen -/
  high : Offset := -1
  deriving Repr, DecidableEq

/-- What completing a message says. -/
structure Completion where
  /-- the message that is done -/
  offset : Offset
  /-- the low watermark afterwards -/
  low : Offset
  deriving Repr, DecidableEq

/-- The offset to mark, if everything up to the message is done. -/
def Completion.commit? (c : Completion) : Option Offset :=
  if c.offset < c.low then some c.low else none

namespace Tracker

variable {α : Type}

instance : Inhabited (Tracker α) := ⟨{}⟩

/-- How many messages are in flight. -/
def count (t : Tracker α) : Nat := t.inFlight.size

/-- Whether nothing is in flight. -/
def isIdle (t : Tracker α) : Bool := t.inFlight.entries.isEmpty

/-- A message is in flight from now on.  The low watermark follows it when nothing else is in flight,
and down to it when it lies below. -/
def enter (t : Tracker α) (o : Offset) (a : α) : Tracker α where
  inFlight := t.inFlight.insert o a
  low := if t.isIdle || o < t.low then o else t.low
  high := max t.high o

/-- A message is done.  Nothing for a message that is not in flight. -/
def complete (t : Tracker α) (o : Offset) : Option (Completion × Tracker α) :=
  if t.inFlight.contains o then
    let rest := t.inFlight.erase o
    -- A message above the low watermark leaves it where it is.
    let low := if o ≤ t.low then rest.keys.min?.getD t.high.next else t.low
    some (⟨o, low⟩, { t with inFlight := rest, low })
  else none

/-- A message is passed over.  With nothing in flight everything up to it is done, and the offset to
mark is returned; else this is left to the messages in flight. -/
def skip (t : Tracker α) (o : Offset) : Option Offset × Tracker α :=
  if t.isIdle then
    let high := max t.high o
    (some high.next, { t with high, low := high.next })
  else (none, t)

end Tracker

end ConsumerGroup
