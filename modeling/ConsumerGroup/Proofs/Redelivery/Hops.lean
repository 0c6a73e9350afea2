import ConsumerGroup.Proofs.Redelivery.Counts
import ConsumerGroup.Redelivery

/-!
# Hops of a failed message

A failed message that is published again is read again, somewhere.  This is one *hop*: the record
that `Redeliverer.plan` gives, and the envelope it becomes where it is read (`Redeliverer.Hop`).

What the headers of the record say is told name by name (`get?_retryKey_of_lt`,
`get?_traceKey_headersFor`, `get?_topicKey_headersFor`, `get?_headersFor_of_ne`), and the same of the
envelope at the other end follows.
-/

namespace ConsumerGroup

/-- Without topics that hold messages back, a message goes to its own topic. -/
theorem DelayTopics.resolve_empty (delay : Nat) (topic : String) :
    (∅ : DelayTopics).resolve delay topic = topic := by
  have hnone : ∀ bucket, (∅ : DelayTopics).topic? bucket = none := fun _ => rfl
  rw [resolve]
  split
  · rfl
  · cases resolveBucket? delay (∅ : DelayTopics).buckets <;> simp [hnone]

namespace Redeliverer

variable {r : Redeliverer} {e e' : Envelope} {delay : Nat} {record : Record}

/-! ## Headers of the record -/

/-- The record has the next count. -/
@[simp] theorem get?_retryKey_headersFor (e : Envelope) :
    (headersFor e).get? Headers.retryKey = some (Nat.repr (nextRetryTimes e.retryTimes)) := by
  simp only [headersFor]
  split
  · exact e.get?_retryKey_redeliveryHeaders
  · rw [Headers.get?_set_of_ne _ (by decide), Envelope.get?_retryKey_redeliveryHeaders]

/-- Below the largest count, that is one more. -/
theorem get?_retryKey_of_lt (h : e.retryTimes < maxRetryTimes) :
    (headersFor e).get? Headers.retryKey = some (Nat.repr (e.retryTimes + 1)) := by
  rw [get?_retryKey_headersFor, nextRetryTimes_of_lt h]

theorem get?_traceKey_redeliveryHeaders (e : Envelope) :
    e.redeliveryHeaders.get? Headers.traceKey = some e.trace.text := by
  rw [Envelope.redeliveryHeaders, Headers.get?_set_self]

@[simp] theorem get?_traceKey_headersFor (e : Envelope) :
    (headersFor e).get? Headers.traceKey = some e.trace.text := by
  simp only [headersFor]
  split
  · exact get?_traceKey_redeliveryHeaders e
  · rw [Headers.get?_set_of_ne _ (by decide), get?_traceKey_redeliveryHeaders]

/-- A name other than the count and the trace is looked up as before. -/
theorem get?_redeliveryHeaders_of_ne {key : String} (hcount : key ≠ Headers.retryKey)
    (htrace : key ≠ Headers.traceKey) (e : Envelope) :
    e.redeliveryHeaders.get? key = e.headers.get? key := by
  rw [Envelope.redeliveryHeaders, Headers.get?_set_of_ne _ htrace, Headers.get?_set_of_ne _ hcount]

/-- The record names the topic the message was first published to, as far as it was known, else the
one it was read from. -/
@[simp] theorem get?_topicKey_headersFor (e : Envelope) :
    (headersFor e).get? Headers.topicKey = some e.originTopic := by
  have hbefore : e.redeliveryHeaders.get? Headers.topicKey = e.headers.get? Headers.topicKey :=
    get?_redeliveryHeaders_of_ne (by decide) (by decide) e
  simp only [headersFor, Envelope.originTopic, Envelope.headerNonempty?, hbefore]
  split
  · rename_i origin horigin
    rw [horigin, Option.getD_some, hbefore]
    exact (Option.filter_eq_some_iff.1 horigin).1
  · rename_i horigin
    rw [horigin, Option.getD_none, Headers.get?_set_self]

theorem get?_headersFor_of_ne {key : String} (hcount : key ≠ Headers.retryKey)
    (htrace : key ≠ Headers.traceKey) (htopic : key ≠ Headers.topicKey) (e : Envelope) :
    (headersFor e).get? key = e.headers.get? key := by
  simp only [headersFor]
  split
  · exact get?_redeliveryHeaders_of_ne hcount htrace e
  · rw [Headers.get?_set_of_ne _ htopic, get?_redeliveryHeaders_of_ne hcount htrace]

/-! ## Plans -/

theorem plan_of_le (h : r.retryLimit ≤ e.retryTimes) : r.plan e = .exhausted := by
  rw [plan, if_pos h]

/-- A message below the limit is published again. -/
theorem plan_of_lt (h : e.retryTimes < r.retryLimit) :
    r.plan e = .publish ((r.ladder.delayFor? e.retryTimes).getD 0)
      { topic := r.delayTopics.resolve ((r.ladder.delayFor? e.retryTimes).getD 0) e.topic
        payload := e.payload
        headers := headersFor e } := by
  rw [plan, if_neg (Nat.not_le.2 h)]

/-- Only a message below the limit is published again, with its own content. -/
theorem of_plan_eq_publish (h : r.plan e = .publish delay record) :
    e.retryTimes < r.retryLimit ∧ delay = (r.ladder.delayFor? e.retryTimes).getD 0 ∧
      record = ⟨r.delayTopics.resolve delay e.topic, e.payload, headersFor e⟩ := by
  rcases Nat.lt_or_ge e.retryTimes r.retryLimit with hlt | hle
  · rw [plan_of_lt hlt] at h
    cases h
    exact ⟨hlt, rfl, rfl⟩
  · rw [plan_of_le hle] at h
    cases h

/-! ## Hops -/

/-- `r.Hop e e'`: `r` publishes `e` again, and `e'` is what is read of the record, on whatever
partition and at whatever offset. -/
inductive Hop (r : Redeliverer) (e : Envelope) : Envelope → Prop where
  /-- the planned record is read -/
  | read {delay : Nat} {record : Record} (planned : r.plan e = .publish delay record)
      (fresh : TraceId) (source : TopicPartition) (offset : Offset) (timestamp : Option Int) :
      Hop r e (.ofMessage fresh source ⟨offset, record.payload, record.headers, timestamp⟩)

/-- A message below the limit may be read again anywhere. -/
theorem hop_of_lt (h : e.retryTimes < r.retryLimit) (fresh : TraceId) (source : TopicPartition)
    (offset : Offset) (timestamp : Option Int) :
    r.Hop e (.ofMessage fresh source ⟨offset, e.payload, headersFor e, timestamp⟩) :=
  Hop.read (plan_of_lt h) fresh source offset timestamp

namespace Hop

/-- Only a message below the limit makes a hop. -/
theorem lt_retryLimit (h : r.Hop e e') : e.retryTimes < r.retryLimit := by
  obtain ⟨planned, -, -, -, -⟩ := h
  exact (of_plan_eq_publish planned).1

theorem headers_eq (h : r.Hop e e') : e'.headers = headersFor e := by
  obtain ⟨planned, -, -, -, -⟩ := h
  rw [(of_plan_eq_publish planned).2.2]
  rfl

theorem payload_eq (h : r.Hop e e') : e'.payload = e.payload := by
  obtain ⟨planned, -, -, -, -⟩ := h
  rw [(of_plan_eq_publish planned).2.2]
  rfl

/-- The count of a hop is read back as one more, if the limit is in range. -/
theorem retryTimes_eq (h : r.Hop e e') (hlimit : r.retryLimit ≤ maxRetryTimes) :
    e'.retryTimes = e.retryTimes + 1 := by
  have hlt : e.retryTimes < maxRetryTimes := Nat.lt_of_lt_of_le h.lt_retryLimit hlimit
  obtain ⟨planned, fresh, source, offset, timestamp⟩ := h
  rw [(of_plan_eq_publish planned).2.2]
  simp only [Envelope.ofMessage, get?_retryKey_of_lt hlt]
  exact readRetryTimes_repr hlt

/-- The trace is read back. -/
theorem trace_eq (h : r.Hop e e') : e'.trace = e.trace := by
  obtain ⟨planned, fresh, source, offset, timestamp⟩ := h
  rw [(of_plan_eq_publish planned).2.2]
  simp only [Envelope.ofMessage, get?_traceKey_headersFor, TraceId.ofHeader_text]

end Hop

end Redeliverer

end ConsumerGroup
