import ConsumerGroup.Proofs.Broker.Joins

/-!
# Records that are taken and records that are refused

`publish_outcome` says all that becomes of a record, at a broker that was asked anything before.  A
record that is refused on demand leaves the broker as it was.  One that is refused because its topic has
no partition counts as published all the same: `published_though_refused`.
-/

namespace ConsumerGroup.Broker

variable {b b' : Broker} {now : Int} {record : Record}

/-- What happens when a record is refused. -/
inductive Refuses (b : Broker) (record : Record) : BrokerError → Broker → Prop where
  /-- it is refused on demand -/
  | onDemand : 0 < b.publishFailures →
      Refuses b record (.publish record.topic "injected failure")
        { b with publishFailures := b.publishFailures - 1 }
  /-- there is a topic of its name, but that has no partition -/
  | noPartition : b.publishFailures = 0 → b.topics.get? record.topic = some [] →
      Refuses b record (.unknownTopicOrPartition (TopicPartition.text ⟨record.topic, 0⟩))
        { b with published := b.published.push record }

/-- What happens when a record is taken. -/
structure Takes (b : Broker) (now : Int) (record : Record) (b' : Broker) : Prop where
  /-- none was to be refused -/
  willing : b.publishFailures = 0
  /-- it is published, and nothing changes but logs and channels -/
  rest_eq : b' = { b with
    topics := b'.topics
    channels := b'.channels
    published := b.published.push record
    announcements := b.announcements + 1 }
  /-- if there is no topic of its name that is all -/
  unknown : b.topics.contains record.topic = false →
    b'.topics = b.topics ∧ b'.channels = b.channels
  /-- if there is one it becomes the last message of the first partition, and goes once to each live
  claim that somebody reads and that has room for it -/
  known : b.topics.contains record.topic = true → ∃ log m, b.log? ⟨record.topic, 0⟩ = some log ∧
    m = ⟨log.size, record.payload, record.headers, some now⟩ ∧
    (∀ source, b'.log? source =
      if source = ⟨record.topic, 0⟩ then some (log.push m) else b.log? source) ∧
    b'.channels.size = b.channels.size ∧
    ∀ c, b'.channel c = { b.channel c with
      queue :=
        if c ∈ b.feedsOf ⟨record.topic, 0⟩ ∧ (b.channel c).read = true ∧
          (b.channel c).queue.length < claimCapacity
        then (b.channel c).queue ++ [m] else (b.channel c).queue
      arrived := (b'.channel c).arrived
      lost := (b'.channel c).lost }

/-- A topic without a first partition has none. -/
theorem get?_eq_nil_of_log? {topic : String} (hknown : b.topics.contains topic = true)
    (hlog : b.log? ⟨topic, 0⟩ = none) : b.topics.get? topic = some [] := by
  obtain ⟨logs, hlogs⟩ := Option.isSome_iff_exists.1 hknown
  rw [hlogs]
  cases logs with
  | nil => rfl
  | cons log logs => simp [log?, hlogs] at hlog

/-- A record that becomes a message is taken. -/
theorem Sound.takes (h : b.Sound) {o : Offset} {b₁ : Broker} (hfails : b.publishFailures = 0)
    (hknown : b.topics.contains record.topic = true)
    (ha : append { b with published := b.published.push record } now ⟨record.topic, 0⟩
      record.payload record.headers = .ok (o, b₁)) : b.Takes now record b₁.announce := by
  have hpublished : ({ b with published := b.published.push record } : Broker).Sound :=
    h.remains (.of_eq rfl rfl)
  have hrest := append_rest ha
  obtain ⟨log, hlog, -, happends⟩ := hpublished.append_inv ha
  refine ⟨hfails, congrArg announce hrest, fun hunknown => absurd hunknown (by simp [hknown]), fun _ => ?_⟩
  refine ⟨log, _, hlog, rfl, fun source => ?_, happends.channels_size, fun c => ?_⟩
  · obtain ⟨log', hlog', -, hpush⟩ := happends.log
    obtain rfl := Option.some.inj (hlog.symm.trans hlog')
    split
    · rename_i hs
      exact hs ▸ hpush
    · rename_i hs
      exact happends.log_ne source hs
  · have hchannel : b₁.announce.channel c = if c ∈ b.feedsOf ⟨record.topic, 0⟩ then
        (b.channel c).send ⟨log.size, record.payload, record.headers, some now⟩
      else b.channel c := happends.channel c
    by_cases hc : c ∈ b.feedsOf ⟨record.topic, 0⟩
    · have hqueue := h.queue_send hc ⟨log.size, record.payload, record.headers, some now⟩
      rw [if_pos hc] at hchannel
      simp only [hc, true_and, hchannel, ← hqueue]
      exact send_eq _ _
    · rw [if_neg hc] at hchannel
      simp only [hc, false_and, if_false, hchannel]

/-- **Records.**  Whatever a broker was asked before: if a record is refused on demand, nothing changes
but how many are still to be refused.  If it is refused because its topic has no partition, it is
published nevertheless, and nothing else changes.  If it is taken, it is published once, and becomes one
message of the first partition of its topic, if there is one. -/
theorem publish_outcome (calls : List Call) (now : Int) (record : Record) :
    match (({} : Broker).run calls).publish now record with
    | (.error error, b') => (({} : Broker).run calls).Refuses record error b'
    | (.ok _, b') => (({} : Broker).run calls).Takes now record b' := by
  have h := sound_run calls
  generalize ({} : Broker).run calls = b at h
  rcases b.publish_cases now record with ⟨hfails, hp⟩ | ⟨hfails, hknown, hp⟩ |
    ⟨hfails, hknown, hlog, hp⟩ | ⟨hfails, hknown, o, b₁, ha, hp⟩
  · rw [hp]
    exact .onDemand hfails
  · rw [hp]
    exact ⟨hfails, rfl, fun _ => ⟨rfl, rfl⟩, fun hk => absurd hk (by simp [hknown])⟩
  · rw [hp]
    exact .noPartition hfails (get?_eq_nil_of_log? hknown hlog)
  · rw [hp]
    exact h.takes hfails hknown ha

/-- A record for a topic without partitions is refused, and published. -/
theorem published_though_refused : ¬ ∀ (calls : List Call) (now : Int) (record : Record)
    (error : BrokerError) (b' : Broker),
    (({} : Broker).run calls).publish now record = (.error error, b') →
    b'.published = (({} : Broker).run calls).published := by
  intro hall
  have hpublished := hall [.createTopic "t" 0] 0 ⟨"t", .empty, ⟨[]⟩⟩ _ _ rfl
  exact absurd (congrArg Array.size hpublished) (by decide +kernel)

end ConsumerGroup.Broker
