import ConsumerGroup.Proofs.Producers
import ConsumerGroup.Proofs.Redelivery.Counts
import Mathlib.Data.List.Infix

/-!
# What is published is read as it was addressed

A publisher and a consumer know of each other only by the headers of a record.  What the one writes
there the other reads, wherever the record is read: also from a topic that holds it back.

The two sides call different values empty.  A publisher takes a group that is not blank, and a
consumer one that is not empty; a publisher writes every trace id, and a consumer reads one without
the blanks at its ends.

Main statement: `published_is_read_back`.
-/

namespace ConsumerGroup

namespace OutgoingMessage

variable {m : OutgoingMessage} {delayTopics : DelayTopics} {trace : TraceId}

/-! ## The record -/

/-- No record is made of a message for a blank group, and no other is refused. -/
theorem record_eq_error_iff {error : ConsumerError} :
    m.record delayTopics trace = .error error ↔
      (∀ c ∈ m.group.toList, Text.isBlank c = true) ∧ error = .emptyGroup := by
  rw [← Text.isBlankText_iff, record]
  cases Text.isBlankText m.group
  · simp
  · simp [eq_comm]

/-- What a record tells of the message it publishes. -/
structure Published (m : OutgoingMessage) (delayTopics : DelayTopics) (trace : TraceId)
    (record : Record) : Prop where
  /-- the group is not blank -/
  addressed : Text.isBlankText m.group = false
  /-- it goes to the topic that holds messages back for the delay -/
  topic_eq : record.topic = delayTopics.resolve m.delay m.topic
  /-- it has the content -/
  payload_eq : record.payload = m.body
  /-- it names the group -/
  group_eq : record.headers.get? Headers.groupKey = some m.group
  /-- it names the topic the message is meant for -/
  origin_eq : record.headers.get? Headers.topicKey = some m.topic
  /-- it carries the trace -/
  trace_eq : record.headers.get? Headers.traceKey = some trace.text
  /-- it has not been redelivered -/
  retry_eq : record.headers.get? Headers.retryKey = some (Nat.repr 0)

theorem published_of_record {record : Record} (h : m.record delayTopics trace = .ok record) :
    m.Published delayTopics trace record := by
  rw [OutgoingMessage.record] at h
  split at h
  · cases h
  · rename_i hblank
    cases h
    refine ⟨Bool.eq_false_iff.2 hblank, rfl, rfl, ?_, ?_, ?_, ?_⟩ <;>
      simp [Headers.get?_push, Headers.groupKey, Headers.topicKey, Headers.traceKey,
        Headers.retryKey]
    rfl

/-! ## The call -/

variable {f : Type → Type} [Monad f] (publish : Record → f (Except BrokerError Unit))

/-- A message that is refused is handed to no producer. -/
theorem send_of_error {error : ConsumerError} (h : m.record delayTopics trace = .error error) :
    m.send delayTopics trace publish = pure (.error error) := by
  rw [send, h]

/-- The record of a message is handed over once, and the answer is the result. -/
theorem send_of_ok [LawfulMonad f] {record : Record} (h : m.record delayTopics trace = .ok record) :
    m.send delayTopics trace publish = Except.mapError .broker <$> publish record := by
  rw [send, h, map_eq_pure_bind]
  refine bind_congr fun answer => ?_
  cases answer <;> rfl

end OutgoingMessage

/-- The envelope of a record that is read somewhere. -/
def Record.readAs (record : Record) (fresh : TraceId) (source : TopicPartition) (offset : Offset)
    (timestamp : Option Int) : Envelope :=
  .ofMessage fresh source ⟨offset, record.payload, record.headers, timestamp⟩

namespace OutgoingMessage.Published

/-! ## The reader -/

variable {m : OutgoingMessage} {delayTopics : DelayTopics} {trace : TraceId} {record : Record}
  (h : m.Published delayTopics trace record) (fresh : TraceId) (source : TopicPartition)
  (offset : Offset) (timestamp : Option Int)
include h

/-- A group that is not blank is not empty either. -/
theorem group_ne : m.group ≠ "" := by
  intro hempty
  have hblank := h.addressed
  rw [hempty] at hblank
  exact absurd hblank (by decide +kernel)

theorem group?_readAs : (record.readAs fresh source offset timestamp).group? = some m.group := by
  simp [Record.readAs, Envelope.group?, Envelope.headerNonempty?, Envelope.ofMessage, h.group_eq,
    h.group_ne]

theorem originTopic_readAs (htopic : m.topic ≠ "") :
    (record.readAs fresh source offset timestamp).originTopic = m.topic := by
  simp only [Record.readAs, Envelope.originTopic, Envelope.headerNonempty?, Envelope.ofMessage,
    h.origin_eq, Option.filter_some, if_pos (decide_eq_true htopic), Option.getD_some]

theorem retryTimes_readAs : (record.readAs fresh source offset timestamp).retryTimes = 0 := by
  simp only [Record.readAs, Envelope.ofMessage, h.retry_eq]
  exact readRetryTimes_repr (Nat.zero_le _)

theorem trace_readAs : (record.readAs fresh source offset timestamp).trace = trace := by
  simp only [Record.readAs, Envelope.ofMessage, h.trace_eq, TraceId.ofHeader_text]

theorem isAddressedTo_readAs (g : String) :
    (record.readAs fresh source offset timestamp).isAddressedTo g = true ↔
      m.group.toList <+: g.toList := by
  rw [Envelope.isAddressedTo, h.group?_readAs]
  exact List.isPrefixOf_iff_prefix

end OutgoingMessage.Published

namespace OutgoingMessage

variable {f : Type → Type} [Monad f] [LawfulMonad f]

/-- **What is published is read back as it was addressed.**  Of a message for a topic with a name,
with whatever delay, delay topics and trace (one that was named, or else one that was minted):

* it is refused exactly when all characters of its group are blank, and then no producer is called;
* else the producer is called once, with the record of the message, and its answer is the result;
* the record goes to the topic that holds it back, and wherever and whenever it is read, it has the
  content, the group, the logical topic, the trace and no redelivery, and it is addressed to the
  groups whose names start with the group of the message. -/
theorem published_is_read_back (m : OutgoingMessage) (htopic : m.topic ≠ "")
    (delayTopics : DelayTopics) (minted : TraceId) (named : Option String)
    (publish : Record → f (Except BrokerError Unit)) :
    let trace := TraceId.ofHeader minted named
    (∀ error, m.record delayTopics trace = .error error ↔
      (∀ c ∈ m.group.toList, Text.isBlank c = true) ∧ error = .emptyGroup) ∧
    (∀ error, m.record delayTopics trace = .error error →
      (m.send delayTopics trace (noting publish)).run [] = pure (.error error, [])) ∧
    ∀ record, m.record delayTopics trace = .ok record →
      (m.send delayTopics trace (noting publish)).run [] =
        (fun answer => (answer.mapError .broker, [record])) <$> publish record ∧
      record.topic = delayTopics.resolve m.delay m.topic ∧
      ∀ fresh source offset timestamp,
        let e := record.readAs fresh source offset timestamp
        e.payload = m.body ∧ e.group? = some m.group ∧ e.originTopic = m.topic ∧
          e.retryTimes = 0 ∧ e.trace = trace ∧
          ∀ g, e.isAddressedTo g = true ↔ m.group.toList <+: g.toList := by
  intro trace
  refine ⟨fun _ => record_eq_error_iff, ?_, ?_⟩
  · intro error herror
    rw [send_of_error _ herror]
    rfl
  · intro record hrecord
    have h := published_of_record hrecord
    refine ⟨?_, h.topic_eq, ?_⟩
    · rw [send_of_ok _ hrecord, StateT.run_map, run_noting, Functor.map_map]
      rfl
    · intro fresh source offset timestamp
      exact ⟨h.payload_eq, h.group?_readAs _ _ _ _, h.originTopic_readAs _ _ _ _ htopic,
        h.retryTimes_readAs _ _ _ _, h.trace_readAs _ _ _ _, h.isAddressedTo_readAs _ _ _ _⟩

/-- A message for the groups that start with a blank and `svc` is held back for a minute; the producer
does not take it.  Once it is read from the delay topic it names the topic it is meant for. -/
theorem published_is_read_back_delayed :
    let m : OutgoingMessage := { topic := "orders", group := " svc", delay := 45, body := ⟨#[7]⟩ }
    let trace := TraceId.ofHeader default (some " t1\n")
    let record : Record := ⟨"delay_60s", ⟨#[7]⟩,
      ⟨[("group", " svc"), ("topic", "orders"), ("traceId", "t1"), ("retryTimes", "0")]⟩⟩
    let publish : Record → Id (Except BrokerError Unit) := fun _ => .error (.connection "down")
    m.topic ≠ "" ∧ m.record (.standard "delay_") trace = .ok record ∧
      (m.send (.standard "delay_") trace (noting publish)).run [] =
        (.error (.broker (.connection "down")), [record]) ∧
      (record.readAs default ⟨"delay_60s", 2⟩ 9 none).originTopic = "orders" ∧
      (record.readAs default ⟨"delay_60s", 2⟩ 9 none).isAddressedTo "svc" = false := by
  intro m trace record publish
  have hrecord : m.record (.standard "delay_") trace = .ok record := by decide +kernel
  obtain ⟨-, -, hok⟩ :=
    published_is_read_back m (by decide) (.standard "delay_") default (some " t1\n") publish
  obtain ⟨hsend, -, hread⟩ := hok record hrecord
  obtain ⟨-, -, horigin, -, -, haddressed⟩ := hread default ⟨"delay_60s", 2⟩ 9 none
  refine ⟨by decide, hrecord, hsend, horigin, ?_⟩
  exact Bool.eq_false_iff.2 fun h => absurd ((haddressed "svc").1 h) (by decide)

end OutgoingMessage

end ConsumerGroup
