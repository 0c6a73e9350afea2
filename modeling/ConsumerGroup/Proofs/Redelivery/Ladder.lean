import ConsumerGroup.Proofs.Redelivery.Hops

/-!
# The retry ladder of a message that fails every time

A message that fails every time is published again and again, each time with its count one higher and
held back for the next delay of the ladder, until its count has reached the limit.  Between two
attempts a delay service hands the record back on the topic of the consumer
(`Redeliverer.FailureChain`).

Main statement: `failureChain_walks_ladder`, how long such a chain is and what each of its plans
says.
-/

namespace ConsumerGroup

/-- Past the end of a ladder its last delay counts. -/
theorem DelayLadder.delayFor?_getD (ladder : DelayLadder) (attempt : Nat) :
    (ladder.delayFor? attempt).getD 0 =
      (ladder.toList[attempt]?).getD (ladder.toList.getLast?.getD 0) := by
  rw [delayFor?]
  split
  · rename_i delay hdelay
    rw [hdelay, Option.getD_some, Option.getD_some]
  · rename_i hnone
    rw [hnone, Option.getD_none]

namespace Redeliverer

variable {r : Redeliverer} {topic : String} {m : Message} {attempt : Nat → Envelope}

/-- The envelopes of a message of that topic that fails every time: the first one is read from the
message itself, and each further one from the record planned for the one before, which comes back on
the same topic, on whatever partition and at whatever offset. -/
structure FailureChain (r : Redeliverer) (topic : String) (m : Message) (attempt : Nat → Envelope) :
    Prop where
  /-- the first attempt is at the message -/
  first : ∃ fresh partition, attempt 0 = .ofMessage fresh ⟨topic, partition⟩ m
  /-- what is planned comes back, on the topic of the consumer -/
  back : ∀ k delay record, r.plan (attempt k) = .publish delay record →
    r.Hop (attempt k) (attempt (k + 1)) ∧ (attempt (k + 1)).topic = topic

namespace FailureChain

/-- The first attempt finds the count that the headers of the message give. -/
theorem retryTimes_zero (h : r.FailureChain topic m attempt) :
    (attempt 0).retryTimes = readRetryTimes (m.headers.get? Headers.retryKey) := by
  obtain ⟨fresh, partition, hfirst⟩ := h.first
  rw [hfirst]
  rfl

/-- What the attempts up to the limit find: a count one higher each time, the content of the message
and the topic of the consumer. -/
theorem attempt_eq (h : r.FailureChain topic m attempt) (hlimit : r.retryLimit ≤ maxRetryTimes)
    {k : Nat} (hk : k ≤ r.retryLimit - (attempt 0).retryTimes) :
    (attempt k).retryTimes = (attempt 0).retryTimes + k ∧
      (attempt k).payload = m.payload ∧ (attempt k).topic = topic := by
  induction k with
  | zero =>
    obtain ⟨fresh, partition, hfirst⟩ := h.first
    rw [hfirst]
    exact ⟨rfl, rfl, rfl⟩
  | succ k ih =>
    obtain ⟨hcount, hpayload, -⟩ := ih (by omega)
    obtain ⟨hop, htopic⟩ := h.back k _ _ (plan_of_lt (by omega))
    have hnext := hop.retryTimes_eq hlimit
    exact ⟨by omega, hop.payload_eq.trans hpayload, htopic⟩

end FailureChain

/-- The attempts at a message whose records come back on partition 0, at the offset they had. -/
def attempts (fresh : TraceId) (topic : String) (m : Message) : Nat → Envelope
  | 0 => .ofMessage fresh ⟨topic, 0⟩ m
  | k + 1 =>
    let e := attempts fresh topic m k
    .ofMessage fresh ⟨topic, 0⟩ ⟨e.offset, e.payload, headersFor e, none⟩

/-- There is a failure chain of every message at every consumer. -/
theorem failureChain_attempts (r : Redeliverer) (fresh : TraceId) (topic : String) (m : Message) :
    r.FailureChain topic m (attempts fresh topic m) where
  first := ⟨fresh, 0, rfl⟩
  back k _ _ hplan :=
    ⟨hop_of_lt (of_plan_eq_publish hplan).1 fresh ⟨topic, 0⟩ (attempts fresh topic m k).offset none,
      rfl⟩

/-- A planned redelivery does not take the count out of range. -/
theorem succ_retryTimes_le_of_plan {e : Envelope} {delay : Nat} {record : Record}
    (hlimit : r.retryLimit ≤ maxRetryTimes) (h : r.plan e = .publish delay record) :
    e.retryTimes + 1 ≤ maxRetryTimes := by
  have hlt := (of_plan_eq_publish h).1
  omega

/-- **The retry ladder of a whole failure chain.**  Let a message with count `c` fail every time, at a
consumer with limit `L`.  Then

* each of the first `L - c` attempts is followed by a record that has the next count in decimal, the
  content of the message, the delay of that count (past the end of the ladder its last delay, and none
  for an empty ladder) and the topic that holds messages back for that delay;
* the attempt after these is the last: the plan is to drop the message;
* whatever the headers say, no plan takes a count out of range. -/
theorem failureChain_walks_ladder (r : Redeliverer) (topic : String) (m : Message)
    (attempt : Nat → Envelope) (hlimit : r.retryLimit ≤ maxRetryTimes)
    (h : r.FailureChain topic m attempt) :
    let c := readRetryTimes (m.headers.get? Headers.retryKey)
    (∀ k < r.retryLimit - c, ∃ delay record,
      r.plan (attempt k) = .publish delay record ∧
      record.headers.get? Headers.retryKey = some (Nat.repr (c + k + 1)) ∧
      delay = (r.ladder.toList[c + k]?).getD (r.ladder.toList.getLast?.getD 0) ∧
      record.topic = r.delayTopics.resolve delay topic ∧
      record.payload = m.payload) ∧
    r.plan (attempt (r.retryLimit - c)) = .exhausted ∧
    ∀ fresh source (m' : Message) delay record,
      r.plan (.ofMessage fresh source m') = .publish delay record →
      (Envelope.ofMessage fresh source m').retryTimes + 1 ≤ maxRetryTimes := by
  intro c
  have hstart : (attempt 0).retryTimes = c := h.retryTimes_zero
  have hattempt : ∀ {k}, k ≤ r.retryLimit - c → (attempt k).retryTimes = c + k ∧
      (attempt k).payload = m.payload ∧ (attempt k).topic = topic := by
    rw [← hstart]
    exact h.attempt_eq hlimit
  refine ⟨?_, ?_, ?_⟩
  · intro k hk
    obtain ⟨hcount, hpayload, htopic⟩ := hattempt (Nat.le_of_lt hk)
    refine ⟨_, _, plan_of_lt (by omega), ?_, ?_, ?_, hpayload⟩
    · rw [get?_retryKey_of_lt (by omega), hcount]
    · rw [DelayLadder.delayFor?_getD, hcount]
    · rw [htopic]
  · obtain ⟨hcount, -, -⟩ := hattempt (Nat.le_refl _)
    exact plan_of_le (by omega)
  · intro fresh source m' delay record hplan
    exact succ_retryTimes_le_of_plan hlimit hplan

/-- A message that says twice how often it was redelivered, first with blanks around a 1, climbs the
two steps that are left to a limit of 3. -/
theorem failureChain_walks_ladder_twice :
    let r : Redeliverer := ⟨.ofList [(60, "later")], 3, ⟨[5, 10]⟩⟩
    let m : Message := ⟨7, ⟨#[1]⟩, ⟨[("retryTimes", " 1 "), ("retryTimes", "9")]⟩, none⟩
    let attempt := attempts default "orders" m
    (∃ delay record, r.plan (attempt 1) = .publish delay record ∧ delay = 10 ∧
      record.topic = "later" ∧ record.headers.get? Headers.retryKey = some "3") ∧
    r.plan (attempt 2) = .exhausted := by
  intro r m attempt
  obtain ⟨hplans, hlast, -⟩ := failureChain_walks_ladder r "orders" m attempt (by decide)
    (failureChain_attempts r default "orders" m)
  have hc : readRetryTimes (m.headers.get? Headers.retryKey) = 1 := by decide +kernel
  rw [hc] at hplans hlast
  obtain ⟨delay, record, hplan, hretry, hdelay, htopic, -⟩ := hplans 1 (by decide)
  have hten : delay = 10 := hdelay
  have hlater : record.topic = "later" := by
    rw [htopic, hten]
    decide
  exact ⟨⟨delay, record, hplan, hten, hlater, hretry.trans (by decide +kernel)⟩, hlast⟩

end Redeliverer

end ConsumerGroup
