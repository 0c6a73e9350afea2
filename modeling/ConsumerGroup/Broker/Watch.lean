import ConsumerGroup.Broker.Basic

/-!
# Watches

A watch waits for something to have happened at a broker.  It looks when it starts, and after that
only when the broker tells it to.
-/

namespace ConsumerGroup

/-- What is waited for. -/
inductive Goal where
  /-- a group has marked at least that offset -/
  | committed (group : String) (source : TopicPartition) (offset : Offset)
  /-- at least so many records were published -/
  | published (count : Nat)
  deriving Repr, DecidableEq

/-- Whether it has come to that. -/
def Goal.isMet (b : Broker) : Goal → Bool
  | committed group source offset =>
    match b.committed.get? (group, source) with
    | some mark => offset ≤ mark
    | none => false
  | published count => count ≤ b.published.size

/-- Somebody who waits. -/
structure Watch where
  /-- what for -/
  goal : Goal
  /-- how many announcements there were when it looked last -/
  seen : Nat
  /-- whether the goal was met when it looked -/
  met : Bool
  deriving Repr, DecidableEq

namespace Watch

/-- Starts to wait. -/
def start (b : Broker) (goal : Goal) : Watch := ⟨goal, b.announcements, goal.isMet b⟩

/-- Looks again, if that was announced and the goal was not met before. -/
def look (w : Watch) (b : Broker) : Watch :=
  if w.met || w.seen = b.announcements then w else start b w.goal

end Watch

end ConsumerGroup
