import ConsumerGroup.Proofs.Delay.Buckets
import ConsumerGroup.Proofs.Redelivery.Hops
import ConsumerGroup.Proofs.ValidSettings

/-!
# Delays of configured consumers

What is checked of a ladder when a consumer is configured is little: each delay is longer than the one
before it.  What relies on it is far away: the delay of an attempt, its bucket, and the topic of that.

* `DelayLadder.delayFor?_lt`, `DelayLadder.delayFor?_le` — the delays of an ascending ladder rise with the
  attempts, and do not fall past its end.
* `ConsumerConfig.Redelivers` — what a configured consumer does with failed messages.
* `built_configs_redeliver` — which configurations are built, and that each redelivers.
-/

namespace ConsumerGroup

/-! ## Delays of attempts -/

namespace DelayLadder

variable {ladder : DelayLadder} {attempt attempt' delay delay' : Nat}

theorem delayFor?_of_lt (h : attempt < ladder.toList.length) :
    ladder.delayFor? attempt = some ladder.toList[attempt] := by
  rw [delayFor?, List.getElem?_eq_getElem h]

/-- From the last entry on the delay stays the same. -/
theorem delayFor?_of_le (h : ladder.toList.length ≤ attempt + 1) :
    ladder.delayFor? attempt = ladder.toList.getLast? := by
  rw [delayFor?]
  split
  · rename_i hget
    obtain ⟨hlt, -⟩ := List.getElem?_eq_some_iff.1 hget
    rw [List.getLast?_eq_getElem?, ← hget]
    congr 1
    omega
  · rfl

theorem delayFor?_eq_none_iff : ladder.delayFor? attempt = none ↔ ladder.toList = [] := by
  rw [delayFor?]
  split
  · rename_i hget
    have hmem := List.mem_of_getElem? hget
    exact iff_of_false nofun (List.ne_nil_of_mem hmem)
  · exact List.getLast?_eq_none_iff

theorem mem_of_delayFor? (h : ladder.delayFor? attempt = some delay) : delay ∈ ladder.toList := by
  rw [delayFor?] at h
  split at h
  · rename_i hget
    obtain rfl := Option.some.inj h
    exact List.mem_of_getElem? hget
  · exact List.mem_of_getLast? h

/-- No delay is longer than the last one. -/
theorem le_getLast (hasc : ladder.toList.Pairwise (· < ·)) (h : ladder.toList.getLast? = some delay)
    {d : Nat} (hd : d ∈ ladder.toList) : d ≤ delay := by
  obtain ⟨shorter, hl⟩ := List.getLast?_eq_some_iff.1 h
  rw [hl] at hasc hd
  rcases List.mem_append.1 hd with hd | hd
  · exact Nat.le_of_lt ((List.pairwise_append.1 hasc).2.2 d hd delay List.mem_cons_self)
  · exact Nat.le_of_eq (List.mem_singleton.1 hd)

/-- Up to the last entry a later attempt has a longer delay. -/
theorem delayFor?_lt (hasc : ladder.toList.Pairwise (· < ·)) (h : ladder.delayFor? attempt = some delay)
    (h' : ladder.delayFor? attempt' = some delay') (hlt : attempt < attempt')
    (hend : attempt' < ladder.toList.length) : delay < delay' := by
  rw [delayFor?_of_lt (Nat.lt_trans hlt hend)] at h
  rw [delayFor?_of_lt hend] at h'
  obtain rfl := Option.some.inj h
  obtain rfl := Option.some.inj h'
  exact List.pairwise_iff_getElem.1 hasc attempt attempt' _ hend hlt

/-- A later attempt has no shorter delay. -/
theorem delayFor?_le (hasc : ladder.toList.Pairwise (· < ·)) (h : ladder.delayFor? attempt = some delay)
    (h' : ladder.delayFor? attempt' = some delay') (hle : attempt ≤ attempt') : delay ≤ delay' := by
  rcases Nat.lt_or_ge attempt' ladder.toList.length with hend | hend
  · rcases Nat.lt_or_eq_of_le hle with hlt | rfl
    · exact Nat.le_of_lt (delayFor?_lt hasc h h' hlt hend)
    · exact Nat.le_of_eq (Option.some.inj (h.symm.trans h'))
  · rw [delayFor?_of_le (Nat.le_succ_of_le hend)] at h'
    exact le_getLast hasc h' (mem_of_delayFor? h)

end DelayLadder

/-! ## Configurations -/

namespace ConsumerConfig

variable {c : ConsumerConfig} {r : ConsumerRequest} {topics : DelayTopics} {e : Envelope} {delay : Nat}
  {record : Record}

/-- What can be relied on when failed messages are published again. -/
structure Redelivers (c : ConsumerConfig) (topics : DelayTopics) : Prop where
  /-- the delay is one of the ladder -/
  listed : ∀ e delay record, (c.redelivererWith topics).plan e = .publish delay record →
    c.ladder.delayFor? e.retryTimes = some delay ∧ delay ∈ c.ladder.toList
  /-- up to the last entry of the ladder it rises with the count -/
  rises : ∀ e delay record e' delay' record', (c.redelivererWith topics).plan e = .publish delay record →
    (c.redelivererWith topics).plan e' = .publish delay' record' → e.retryTimes < e'.retryTimes →
    e'.retryTimes < c.ladder.length → delay < delay'
  /-- from there on it is the longest one -/
  longest : ∀ e delay record, (c.redelivererWith topics).plan e = .publish delay record →
    c.ladder.length ≤ e.retryTimes + 1 →
    c.ladder.toList.getLast? = some delay ∧ ∀ d ∈ c.ladder.toList, d ≤ delay
  /-- if there are buckets a delay goes to the topic of one, which does not get shorter with the count -/
  buckets : ∀ e delay record e' delay' record', (c.redelivererWith topics).plan e = .publish delay record →
    (c.redelivererWith topics).plan e' = .publish delay' record' → e.retryTimes ≤ e'.retryTimes →
    delay ≠ 0 → topics.buckets ≠ [] → ∃ bucket bucket',
      RoundsTo topics.buckets delay bucket ∧ topics.topic? bucket = some record.topic ∧
      RoundsTo topics.buckets delay' bucket' ∧ topics.topic? bucket' = some record'.topic ∧
      bucket ≤ bucket'

theorem ladder_pairwise (c : ConsumerConfig) : c.ladder.toList.Pairwise (· < ·) :=
  (DelayLadder.ascends_iff_pairwise c.ladder.toList).1 c.ladder_ascending

/-- The ladder of a consumer that redelivers is not empty. -/
theorem ladder_ne_nil (c : ConsumerConfig) (h : 0 < c.retryLimit) : c.ladder.toList ≠ [] := by
  have hne := c.ladder_ne.resolve_left (Nat.ne_of_gt h)
  rw [DelayLadder.isEmpty] at hne
  exact List.isEmpty_eq_false_iff.1 hne

/-- The delay of a planned redelivery is that of the attempt. -/
theorem delayFor?_of_plan (h : (c.redelivererWith topics).plan e = .publish delay record) :
    c.ladder.delayFor? e.retryTimes = some delay ∧ record.topic = topics.resolve delay e.topic := by
  obtain ⟨hlt, hdelay, rfl⟩ := Redeliverer.of_plan_eq_publish h
  have hne := c.ladder_ne_nil (Nat.lt_of_le_of_lt (Nat.zero_le _) hlt)
  have hfound : c.ladder.delayFor? e.retryTimes ≠ none := mt DelayLadder.delayFor?_eq_none_iff.1 hne
  obtain ⟨d, hd⟩ := Option.ne_none_iff_exists'.1 hfound
  refine ⟨?_, rfl⟩
  change delay = (c.ladder.delayFor? e.retryTimes).getD 0 at hdelay
  rw [hd, Option.getD_some] at hdelay
  rw [hd, hdelay]

theorem redelivers (c : ConsumerConfig) (topics : DelayTopics) : c.Redelivers topics where
  listed _ _ _ h := ⟨(delayFor?_of_plan h).1, DelayLadder.mem_of_delayFor? (delayFor?_of_plan h).1⟩
  rises _ _ _ _ _ _ h h' hlt hend :=
    DelayLadder.delayFor?_lt c.ladder_pairwise (delayFor?_of_plan h).1 (delayFor?_of_plan h').1 hlt hend
  longest _ _ _ h hle := by
    have hlast := (DelayLadder.delayFor?_of_le hle).symm.trans (delayFor?_of_plan h).1
    exact ⟨hlast, fun _ => DelayLadder.le_getLast c.ladder_pairwise hlast⟩
  buckets e delay record e' delay' record' h h' hle hdelay hbuckets := by
    obtain ⟨hfor, htopic⟩ := delayFor?_of_plan h
    obtain ⟨hfor', htopic'⟩ := delayFor?_of_plan h'
    have hdelays := DelayLadder.delayFor?_le c.ladder_pairwise hfor hfor' hle
    obtain ⟨bucket, hrounds, hbucket⟩ := DelayTopics.exists_bucket hbuckets hdelay e.topic
    have hdelay' : delay' ≠ 0 := by omega
    obtain ⟨bucket', hrounds', hbucket'⟩ := DelayTopics.exists_bucket hbuckets hdelay' e'.topic
    exact ⟨bucket, bucket', hrounds, htopic ▸ hbucket, hrounds', htopic' ▸ hbucket',
      hrounds.mono hrounds' hdelays⟩

/-- A configuration that is built has what was asked for. -/
theorem build_inv (h : build r = .ok c) : c.concurrency = effectiveConcurrency r.concurrency ∧
    c.retryLimit = r.retryLimit ∧ c.ladder = r.ladder := by
  rw [build] at h
  split at h
  · split at h
    · obtain rfl := Except.ok.inj h
      exact ⟨rfl, rfl, rfl⟩
    · cases h
  · cases h

/-- A configuration is built when the delays ascend, and there are some if there are redeliveries. -/
theorem exists_build_iff : (∃ c, build r = .ok c) ↔
    r.ladder.toList.Pairwise (· < ·) ∧ (0 < r.retryLimit → r.ladder.toList ≠ []) := by
  constructor
  · rintro ⟨c, hc⟩
    obtain ⟨-, hlimit, hladder⟩ := build_inv hc
    rw [← hlimit, ← hladder]
    exact ⟨c.ladder_pairwise, c.ladder_ne_nil⟩
  · rintro ⟨hasc, hne⟩
    obtain ⟨c, hc, -⟩ := exists_build (fun h => hne (Nat.pos_of_ne_zero h.1) h.2) hasc
    exact ⟨c, hc⟩

theorem effectiveConcurrency_eq {n : Nat} (h : 1 ≤ n) (hle : n ≤ 100) : effectiveConcurrency n = n := by
  rw [effectiveConcurrency, if_neg (by omega), maxConcurrency]
  exact Nat.min_eq_left hle

/-- **Configured consumers redeliver.**  A configuration is built exactly when each delay is longer than
all before it, and there are some if there are redeliveries.  It runs between 1 and 100 handlers at a time,
as many as asked for if that is possible.  Whatever the topics that hold messages back: the delay of a
planned redelivery is one of those asked for, it rises with the count up to the last of them and stays the
longest from there on, and its bucket does not get shorter. -/
theorem built_configs_redeliver (r : ConsumerRequest) :
    ((∃ c, build r = .ok c) ↔
      (∀ i j (hi : i < r.ladder.toList.length) (hj : j < r.ladder.toList.length), i < j →
        r.ladder.toList[i] < r.ladder.toList[j]) ∧
      (0 < r.retryLimit → r.ladder.toList ≠ [])) ∧
    ∀ c, build r = .ok c →
      (1 ≤ c.concurrency ∧ c.concurrency ≤ 100 ∧
        (1 ≤ r.concurrency → r.concurrency ≤ 100 → c.concurrency = r.concurrency)) ∧
      c.retryLimit = r.retryLimit ∧ c.ladder = r.ladder ∧ ∀ topics, c.Redelivers topics := by
  constructor
  · rw [exists_build_iff, List.pairwise_iff_getElem]
  · intro c hc
    obtain ⟨hconcurrency, hlimit, hladder⟩ := build_inv hc
    refine ⟨⟨c.concurrency_pos, c.concurrency_le, fun hpos hle => ?_⟩, hlimit, hladder, c.redelivers⟩
    rw [hconcurrency, effectiveConcurrency_eq hpos hle]

/-- A consumer whose first redelivery is not held back. -/
def startsAtOnce : ConsumerRequest where
  groupId := "billing"
  topic := "orders"
  concurrency := 100
  retryLimit := 5
  ladder := ⟨[0, 20, 50]⟩

/-- A message that was redelivered so often. -/
def redelivered (count : Nat) : Envelope where
  source := ⟨"orders", 0⟩
  offset := 7
  payload := .empty
  headers := ⟨[]⟩
  timestamp := none
  retryTimes := count
  trace := default

theorem built_configs_redeliver_startsAtOnce :
    let topics : DelayTopics := .ofList [(60, "long"), (30, "short")]
    ∃ c, build startsAtOnce = .ok c ∧ c.concurrency = 100 ∧ c.Redelivers topics ∧
      (∃ record record', (c.redelivererWith topics).plan (redelivered 1) = .publish 20 record ∧
        (c.redelivererWith topics).plan (redelivered 4) = .publish 50 record' ∧
        ∃ bucket bucket', topics.topic? bucket = some record.topic ∧
          topics.topic? bucket' = some record'.topic ∧ bucket ≤ bucket') := by
  intro topics
  obtain ⟨hbuilds, hall⟩ := built_configs_redeliver startsAtOnce
  obtain ⟨c, hc⟩ := hbuilds.2 ⟨List.pairwise_iff_getElem.1 (by decide), by decide⟩
  obtain ⟨⟨-, -, hconcurrency⟩, hlimit, hladder, hredelivers⟩ := hall c hc
  have hplan : ∀ count < 5, ∃ record, (c.redelivererWith topics).plan (redelivered count) =
      .publish ((startsAtOnce.ladder.delayFor? count).getD 0) record := by
    intro count hcount
    rw [redelivererWith, hlimit, hladder]
    exact ⟨_, Redeliverer.plan_of_lt hcount⟩
  obtain ⟨record, hrecord⟩ := hplan 1 (by decide)
  obtain ⟨record', hrecord'⟩ := hplan 4 (by decide)
  obtain ⟨bucket, bucket', -, hbucket, -, hbucket', hle⟩ := (hredelivers topics).buckets _ _ _ _ _ _
    hrecord hrecord' (by decide) (by decide) (by decide)
  exact ⟨c, hc, hconcurrency (by decide) (by decide), hredelivers topics, record, record', hrecord,
    hrecord', bucket, bucket', hbucket, hbucket', hle⟩

end ConsumerConfig

end ConsumerGroup
