import ConsumerGroup.Message

/-!
# Channels

A channel carries the messages of one claim from the broker to its reader.  It holds a bounded
number of messages that have not been read; what comes while it is full is dropped.  It has two ends,
and each can be closed: the feeding end when the claim is revoked, the reading end when the reader is
gone.

A channel also keeps a record of what came in and of what was dropped for want of room.
-/

namespace ConsumerGroup

/-- The messages on their way to a reader. -/
structure Channel where
  /-- how many unread messages it holds at most -/
  capacity : Nat
  /-- the unread messages, the oldest first -/
  queue : List Message := []
  /-- whether messages may still come in -/
  fed : Bool := true
  /-- whether anybody reads -/
  read : Bool := true
  /-- all messages that ever came in, the oldest first -/
  arrived : List Message := []
  /-- the messages that were dropped because it was full, the oldest first -/
  lost : List Message := []
  deriving DecidableEq, Inhabited

/-- What a reader finds. -/
inductive Received where
  /-- a message -/
  | message (m : Message)
  /-- nothing yet -/
  | empty
  /-- nothing, and nothing will come -/
  | ended
  deriving DecidableEq

namespace Channel

/-- Whether a message that comes in is kept. -/
def accepts (c : Channel) : Bool := c.fed && c.read && c.queue.length < c.capacity

/-- Puts a message in, if the channel keeps it. -/
def send (c : Channel) (m : Message) : Channel :=
  if c.accepts then { c with queue := c.queue ++ [m], arrived := c.arrived ++ [m] }
  -- What comes in at a closed end is no loss of the channel.
  else if c.fed && c.read then { c with lost := c.lost ++ [m] }
  else c

/-- Takes the oldest unread message out. -/
def receive (c : Channel) : Received × Channel :=
  match c.queue with
  | m :: rest => (.message m, { c with queue := rest })
  | [] => (if c.fed then .empty else .ended, c)

/-- A channel of that capacity with as many of the messages in it as it can hold. -/
def ofBacklog (capacity : Nat) (backlog : List Message) : Channel where
  capacity
  queue := backlog.take capacity
  arrived := backlog.take capacity
  lost := backlog.drop capacity

/-- Closes the feeding end. -/
def closeFeed (c : Channel) : Channel := { c with fed := false }

/-- Closes the reading end; unread messages are lost. -/
def closeReader (c : Channel) : Channel := { c with queue := [], read := false }

@[simp] theorem queue_send_of_accepts {c : Channel} (h : c.accepts = true) (m : Message) :
    (c.send m).queue = c.queue ++ [m] := by
  simp [send, h]

@[simp] theorem queue_send_of_not_accepts {c : Channel} (h : c.accepts = false) (m : Message) :
    (c.send m).queue = c.queue := by
  rw [send]
  split
  · simp_all
  · split <;> rfl

/-- What is received comes off the front of the queue. -/
theorem queue_of_receive {c : Channel} {m : Message} (h : c.receive.1 = .message m) :
    c.queue = m :: c.receive.2.queue := by
  rw [receive] at h ⊢
  split at h
  · simp_all
  · split at h <;> cases h

end Channel

end ConsumerGroup
