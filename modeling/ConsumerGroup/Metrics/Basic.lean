import ConsumerGroup.Message
import ConsumerGroup.Table

/-!
# Metrics

What a consumer counts: handled and skipped messages, how long handlers ran, redeliveries, attempts
to publish again, restarts; and two levels per partition, what is in flight and what was marked last.
-/

namespace ConsumerGroup

/-- The upper bounds of the duration buckets in seconds. -/
def durationBounds : List Float :=
  [0.001, 0.005, 0.01, 0.025, 0.05, 0.1, 0.25, 0.5, 1.0, 2.5, 5.0, 10.0, 30.0]

/-- Durations, counted by bucket. -/
structure Histogram where
  /-- how many durations are within each bound -/
  within : List Nat := durationBounds.map fun _ => 0
  /-- how many durations there are -/
  count : Nat := 0
  /-- what they add up to, in seconds -/
  sum : Float := 0
  deriving Repr, Inhabited

/-- Adds a duration. -/
def Histogram.observe (h : Histogram) (seconds : Float) : Histogram where
  within := h.within.zipWith (fun n bound => if seconds ≤ bound then n + 1 else n) durationBounds
  count := h.count + 1
  sum := h.sum + seconds

/-- All counters and levels. -/
structure Metrics where
  /-- handled messages by topic and outcome -/
  handled : Table (String × String) Nat := ∅
  /-- skipped messages by topic -/
  skipped : Table String Nat := ∅
  /-- running times of handlers by topic -/
  durations : Table String Histogram := ∅
  /-- redeliveries by topic and outcome -/
  redeliveries : Table (String × String) Nat := ∅
  /-- attempts to do something again, by what it is and how the attempt ended -/
  retries : Table (String × String) Nat := ∅
  /-- messages in flight by partition -/
  inFlight : Table TopicPartition Int := ∅
  /-- offsets marked last by partition -/
  committed : Table TopicPartition Int := ∅
  /-- restarts by topic and reason -/
  restarts : Table (String × String) Nat := ∅

namespace Metrics

instance : Inhabited Metrics := ⟨{}⟩

/-- A table in which one count is higher by one. -/
def bump {κ : Type} [DecidableEq κ] (t : Table κ Nat) (k : κ) : Table κ Nat :=
  t.insert k ((t.get? k).getD 0 + 1)

/-- How high a count of a table is; a count that is missing is zero. -/
def tally {κ : Type} [DecidableEq κ] (t : Table κ Nat) (k : κ) : Nat := (t.get? k).getD 0

/-- One count is higher by one, and no other changes. -/
theorem tally_bump {κ : Type} [DecidableEq κ] (t : Table κ Nat) (k k' : κ) :
    tally (bump t k) k' = tally t k' + if k' = k then 1 else 0 := by
  by_cases h : k' = k
  · subst h
    simp [tally, bump]
  · simp [tally, bump, h]

/-- A handler ran. -/
def recordHandled (m : Metrics) (topic outcome : String) (seconds : Float) : Metrics :=
  { m with
    handled := bump m.handled (topic, outcome)
    durations := m.durations.insert topic (((m.durations.get? topic).getD {}).observe seconds) }

/-- A message was passed over. -/
def recordSkipped (m : Metrics) (topic : String) : Metrics :=
  { m with skipped := bump m.skipped topic }

/-- A redelivery ended. -/
def recordRedelivery (m : Metrics) (topic outcome : String) : Metrics :=
  { m with redeliveries := bump m.redeliveries (topic, outcome) }

/-- Something is going to be done again. -/
def recordRetryAttempt (m : Metrics) (policy : String) : Metrics :=
  { m with retries := bump m.retries (policy, "attempt") }

/-- Something is given up. -/
def recordRetryExhausted (m : Metrics) (policy : String) : Metrics :=
  { m with retries := bump m.retries (policy, "exhausted") }

/-- Something succeeded. -/
def recordRetrySuccess (m : Metrics) (policy : String) : Metrics :=
  { m with retries := bump m.retries (policy, "success") }

/-- So many messages of a partition are in flight. -/
def setInFlight (m : Metrics) (source : TopicPartition) (n : Int) : Metrics :=
  { m with inFlight := m.inFlight.insert source n }

/-- This offset of a partition was marked. -/
def setCommitted (m : Metrics) (source : TopicPartition) (o : Offset) : Metrics :=
  { m with committed := m.committed.insert source o }

/-- A consumer is going to join again. -/
def recordRestart (m : Metrics) (topic reason : String) : Metrics :=
  { m with restarts := bump m.restarts (topic, reason) }

end Metrics

end ConsumerGroup
