import ConsumerGroup.Delay
import ConsumerGroup.Error

/-!
# Consumer configuration

A consumer reads one topic for one group.  `ConsumerConfig.build` checks what is asked for and fixes
what is left open; whoever holds a `ConsumerConfig` can rely on the rules its proof fields state.
-/

namespace ConsumerGroup

/-- How many handlers of a partition run at a time if nothing is asked for. -/
def defaultConcurrency : Nat := 8

/-- How many handlers of a partition run at a time at most. -/
def maxConcurrency : Nat := 100

/-- How many seconds a released partition waits for its handlers if nothing is asked for. -/
def defaultDrainSeconds : Nat := 30

/-- A consumer of one topic for one group. -/
structure ConsumerConfig where
  /-- the group it joins -/
  groupId : String
  /-- the topic it reads -/
  topic : String
  /-- how many handlers of a partition run at a time -/
  concurrency : Nat
  /-- how often a failed message is redelivered -/
  retryLimit : Nat
  /-- how long it is held back each time -/
  ladder : DelayLadder
  /-- how many milliseconds a released partition waits for its handlers -/
  drainMillis : Nat
  /-- handlers can run -/
  concurrency_pos : 0 < concurrency
  /-- not too many run at a time -/
  concurrency_le : concurrency ≤ maxConcurrency
  /-- the delays ascend -/
  ladder_ascending : ladder.isAscending = true
  /-- redeliveries have a delay -/
  ladder_ne : retryLimit = 0 ∨ ladder.isEmpty = false
  deriving DecidableEq

/-- What is asked of a consumer. -/
structure ConsumerRequest where
  /-- the group to join -/
  groupId : String
  /-- the topic to read -/
  topic : String
  /-- how many handlers of a partition run at a time; zero asks for the usual number -/
  concurrency : Nat := 0
  /-- how often a failed message is redelivered -/
  retryLimit : Nat := 0
  /-- how long it is held back each time -/
  ladder : DelayLadder := {}
  /-- how many milliseconds a released partition waits for its handlers -/
  drainMillis : Nat := defaultDrainSeconds * 1000
  deriving Repr, DecidableEq, Inhabited

/-- The number of handlers that is used where `n` is asked for. -/
def effectiveConcurrency (n : Nat) : Nat :=
  if n = 0 then defaultConcurrency else min n maxConcurrency

theorem effectiveConcurrency_pos (n : Nat) : 0 < effectiveConcurrency n := by
  rw [effectiveConcurrency, defaultConcurrency, maxConcurrency]
  split <;> omega

theorem effectiveConcurrency_le (n : Nat) : effectiveConcurrency n ≤ maxConcurrency := by
  rw [effectiveConcurrency, defaultConcurrency, maxConcurrency]
  split <;> omega

/-- The consumer that is asked for, unless its delays cannot be used. -/
def ConsumerConfig.build (r : ConsumerRequest) : Except ConfigError ConsumerConfig :=
  if hm : r.retryLimit = 0 ∨ r.ladder.isEmpty = false then
    if ha : r.ladder.isAscending = true then
      .ok {
        groupId := r.groupId
        topic := r.topic
        concurrency := effectiveConcurrency r.concurrency
        retryLimit := r.retryLimit
        ladder := r.ladder
        drainMillis := r.drainMillis
        concurrency_pos := effectiveConcurrency_pos _
        concurrency_le := effectiveConcurrency_le _
        ladder_ascending := ha
        ladder_ne := hm }
    else .error (.unorderedDelayLadder r.topic)
  else .error (.missingDelayLadder r.topic r.retryLimit)

end ConsumerGroup
