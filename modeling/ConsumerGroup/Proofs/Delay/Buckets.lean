import ConsumerGroup.Delay
import Mathlib.Data.List.Basic

/-!
# The bucket of a delay

The bucket of a delay is found by going through the buckets from the first to the last, which is right
only because they ascend.

* `RoundsTo` — what a delay is rounded to, said of the buckets without an order.
* `resolveBucket?_eq_some_iff` — among ascending buckets the search finds just that.
* `DelayTopics.topic?_ofList`, `DelayTopics.mem_buckets_ofList` — what is in the table of a list;
  `DelayTopics.exists_bucket` — which topic a delay goes to by such a table.
* `delays_rounded` — where delays go, for every list of buckets.
-/

namespace ConsumerGroup

variable {buckets : List Nat} {delay delay' bucket bucket' : Nat}

/-! ## Rounding -/

/-- What a delay is rounded to: up to the smallest bucket that is as long, or down to the largest one if
none is. -/
inductive RoundsTo (buckets : List Nat) (delay bucket : Nat) : Prop where
  /-- it is rounded up -/
  | up : bucket ∈ buckets → delay ≤ bucket → (∀ b ∈ buckets, delay ≤ b → bucket ≤ b) →
      RoundsTo buckets delay bucket
  /-- it is rounded down -/
  | down : bucket ∈ buckets → (∀ b ∈ buckets, b < delay) → (∀ b ∈ buckets, b ≤ bucket) →
      RoundsTo buckets delay bucket

namespace RoundsTo

theorem mem (h : RoundsTo buckets delay bucket) : bucket ∈ buckets := by
  cases h with
  | up hmem _ _ => exact hmem
  | down hmem _ _ => exact hmem

/-- Among the buckets only those that are too short are passed over. -/
theorem le_of_mem (h : RoundsTo buckets delay bucket) {b : Nat} (hb : b ∈ buckets) (hle : delay ≤ b) :
    bucket ≤ b := by
  cases h with
  | up _ _ hleast => exact hleast b hb hle
  | down _ hall _ => exact absurd (hall b hb) (Nat.not_lt.2 hle)

/-- A delay is rounded up unless it exceeds every bucket. -/
theorem le_or_exceeds (h : RoundsTo buckets delay bucket) :
    delay ≤ bucket ∨ ∀ b ∈ buckets, b < delay := by
  cases h with
  | up _ hle _ => exact .inl hle
  | down _ hall _ => exact .inr hall

/-- A longer delay is not rounded to a shorter bucket. -/
theorem mono (h : RoundsTo buckets delay bucket) (h' : RoundsTo buckets delay' bucket')
    (hle : delay ≤ delay') : bucket ≤ bucket' := by
  cases h' with
  | up hmem hup _ => exact h.le_of_mem hmem (Nat.le_trans hle hup)
  | down _ _ hlargest => exact hlargest bucket h.mem

theorem unique (h : RoundsTo buckets delay bucket) (h' : RoundsTo buckets delay bucket') :
    bucket = bucket' :=
  Nat.le_antisymm (h.mono h' (Nat.le_refl _)) (h'.mono h (Nat.le_refl _))

/-- A delay that is as long as a bucket stays. -/
theorem self (h : bucket ∈ buckets) : RoundsTo buckets bucket bucket :=
  .up h (Nat.le_refl _) fun _ _ hle => hle

/-- Only which buckets there are matters. -/
theorem congr {buckets' : List Nat} (hmem : ∀ b, b ∈ buckets ↔ b ∈ buckets')
    (h : RoundsTo buckets delay bucket) : RoundsTo buckets' delay bucket := by
  cases h with
  | up hb hle hleast =>
    exact .up ((hmem _).1 hb) hle fun b hb' => hleast b ((hmem b).2 hb')
  | down hb hall hlargest =>
    exact .down ((hmem _).1 hb) (fun b hb' => hall b ((hmem b).2 hb'))
      fun b hb' => hlargest b ((hmem b).2 hb')

end RoundsTo

/-- There is nothing to be found only where there are no buckets. -/
theorem resolveBucket?_eq_none_iff : resolveBucket? delay buckets = none ↔ buckets = [] := by
  rw [resolveBucket?]
  split
  · rename_i bucket hfound
    have hmem := List.mem_of_find?_eq_some hfound
    exact iff_of_false nofun (List.ne_nil_of_mem hmem)
  · exact List.getLast?_eq_none_iff

/-- The first match among ascending buckets is the smallest one, and the last of them is the largest. -/
theorem roundsTo_of_resolveBucket? (hasc : buckets.Pairwise (· ≤ ·))
    (h : resolveBucket? delay buckets = some bucket) : RoundsTo buckets delay bucket := by
  rw [resolveBucket?] at h
  split at h
  · rename_i b hfound
    obtain rfl := Option.some.inj h
    obtain ⟨hle, shorter, longer, rfl, hshorter⟩ := List.find?_eq_some_iff_append.1 hfound
    refine .up (by simp) (by simpa using hle) fun c hc hcle => ?_
    rcases List.mem_append.1 hc with hc | hc
    · exact absurd hcle (by simpa using hshorter c hc)
    · rcases List.mem_cons.1 hc with rfl | hc
      · exact Nat.le_refl _
      · exact (List.pairwise_cons.1 (List.pairwise_append.1 hasc).2.1).1 c hc
  · rename_i hnone
    obtain ⟨shorter, rfl⟩ := List.getLast?_eq_some_iff.1 h
    refine .down (by simp) (fun c hc => ?_) fun c hc => ?_
    · simpa using List.find?_eq_none.1 hnone c hc
    · rcases List.mem_append.1 hc with hc | hc
      · exact (List.pairwise_append.1 hasc).2.2 c hc bucket List.mem_cons_self
      · exact Nat.le_of_eq (List.mem_singleton.1 hc)

/-- **The search.**  Among ascending buckets it finds what the delay is rounded to. -/
theorem resolveBucket?_eq_some_iff (hasc : buckets.Pairwise (· ≤ ·)) :
    resolveBucket? delay buckets = some bucket ↔ RoundsTo buckets delay bucket := by
  refine ⟨roundsTo_of_resolveBucket? hasc, fun h => ?_⟩
  rcases hfound : resolveBucket? delay buckets with _ | found
  · rw [resolveBucket?_eq_none_iff.1 hfound] at h
    cases h.mem
  · rw [(roundsTo_of_resolveBucket? hasc hfound).unique h]

/-- What the search does among ascending buckets. -/
structure RoundsWell (buckets : List Nat) : Prop where
  /-- a longer delay does not get a shorter bucket -/
  mono : ∀ delay delay' bucket bucket', delay ≤ delay' → resolveBucket? delay buckets = some bucket →
    resolveBucket? delay' buckets = some bucket' → bucket ≤ bucket'
  /-- a bucket is its own -/
  fixed : ∀ bucket ∈ buckets, resolveBucket? bucket buckets = some bucket
  /-- a delay does not get a shorter bucket unless it exceeds all of them -/
  not_shorter : ∀ delay bucket, resolveBucket? delay buckets = some bucket →
    delay ≤ bucket ∨ ∀ b ∈ buckets, b < delay
  /-- there is a bucket for every delay if there is one at all -/
  total : ∀ delay, resolveBucket? delay buckets = none ↔ buckets = []

theorem roundsWell_of_pairwise (hasc : buckets.Pairwise (· ≤ ·)) : RoundsWell buckets where
  mono _ _ _ _ hle h h' :=
    (roundsTo_of_resolveBucket? hasc h).mono (roundsTo_of_resolveBucket? hasc h') hle
  fixed _ hb := (resolveBucket?_eq_some_iff hasc).2 (.self hb)
  not_shorter _ _ h := (roundsTo_of_resolveBucket? hasc h).le_or_exceeds
  total _ := resolveBucket?_eq_none_iff

/-! ## Tables of delay topics -/

theorem mem_keys_insertAscending (key k : Nat) (value : String) (l : List (Nat × String)) :
    k ∈ (insertAscending key value l).map Prod.fst ↔ k = key ∨ k ∈ l.map Prod.fst := by
  induction l with
  | nil => simp [insertAscending]
  | cons e l ih =>
    rw [insertAscending]
    split
    · simp
    · split
      · rename_i heq
        simp [heq]
      · rw [List.map_cons, List.mem_cons, ih, List.map_cons, List.mem_cons]
        exact or_left_comm

theorem find?_insertAscending (key k : Nat) (value : String) (l : List (Nat × String)) :
    ((insertAscending key value l).find? (·.1 == k)).map Prod.snd =
      if key = k then some value else (l.find? (·.1 == k)).map Prod.snd := by
  induction l with
  | nil => by_cases hk : key = k <;> simp [insertAscending, hk]
  | cons e l ih =>
    rw [insertAscending]
    split
    · by_cases hk : key = k <;> simp [hk]
    · split
      -- The pair is put where one with the same key was, which is then not looked for.
      · rename_i heq
        by_cases hk : key = k <;> simp [← heq, hk]
      · rename_i hne
        by_cases he : e.1 = k
        · have hk : key ≠ k := fun hk => hne (hk.trans he.symm)
          simp [he, hk]
        · simpa [he] using ih

namespace DelayTopics

variable {d : DelayTopics} {pairs : List (Nat × String)} {topic : String}

theorem topic?_insert (d : DelayTopics) (seconds : Nat) (topic : String) (bucket : Nat) :
    (d.insert seconds topic).topic? bucket =
      if seconds = bucket then some topic else d.topic? bucket :=
  find?_insertAscending seconds bucket topic d.entries

theorem mem_buckets_insert (d : DelayTopics) (seconds : Nat) (topic : String) (bucket : Nat) :
    bucket ∈ (d.insert seconds topic).buckets ↔ bucket = seconds ∨ bucket ∈ d.buckets :=
  mem_keys_insertAscending seconds bucket topic d.entries

theorem topic?_foldl_insert (pairs : List (Nat × String)) (d : DelayTopics) (bucket : Nat) :
    (pairs.foldl (fun d p => d.insert p.1 p.2) d).topic? bucket =
      ((pairs.reverse.find? (·.1 = bucket)).map Prod.snd).or (d.topic? bucket) := by
  induction pairs generalizing d with
  | nil => rfl
  | cons p pairs ih =>
    rw [List.foldl_cons, ih, topic?_insert, List.reverse_cons, List.find?_append]
    cases pairs.reverse.find? (·.1 = bucket) with
    | some _ => rfl
    | none => by_cases hp : p.1 = bucket <;> simp [hp]

/-- In the table of a list a bucket has the topic of its last pair. -/
theorem topic?_ofList (pairs : List (Nat × String)) (bucket : Nat) :
    (ofList pairs).topic? bucket = (pairs.reverse.find? (·.1 = bucket)).map Prod.snd := by
  have hnone : (∅ : DelayTopics).topic? bucket = none := rfl
  rw [ofList, topic?_foldl_insert, hnone, Option.or_none]

/-- The buckets of the table of a list are those of its pairs. -/
theorem mem_buckets_ofList (pairs : List (Nat × String)) (bucket : Nat) :
    bucket ∈ (ofList pairs).buckets ↔ bucket ∈ pairs.map Prod.fst := by
  have hfold : ∀ (pairs : List (Nat × String)) (d : DelayTopics),
      bucket ∈ (pairs.foldl (fun d p => d.insert p.1 p.2) d).buckets ↔
        bucket ∈ pairs.map Prod.fst ∨ bucket ∈ d.buckets := by
    intro pairs
    induction pairs with
    | nil => exact fun d => by simp
    | cons p pairs ih =>
      intro d
      rw [List.foldl_cons, ih, mem_buckets_insert, List.map_cons, List.mem_cons]
      exact or_left_comm.trans or_assoc.symm
  rw [ofList, hfold]
  exact or_iff_left List.not_mem_nil

theorem buckets_ascend (d : DelayTopics) : d.buckets.Pairwise (· < ·) :=
  List.pairwise_map.2 d.ascending

/-- The bucket that a delay gets is the one it is rounded to. -/
theorem resolveBucket?_buckets_eq_some_iff :
    resolveBucket? delay d.buckets = some bucket ↔ RoundsTo d.buckets delay bucket :=
  resolveBucket?_eq_some_iff (d.buckets_ascend.imp Nat.le_of_lt)

/-- A delay goes to the topic of its bucket. -/
theorem resolve_eq_of_roundsTo (hdelay : delay ≠ 0) (h : RoundsTo d.buckets delay bucket) :
    d.resolve delay topic = (d.topic? bucket).getD topic := by
  rw [resolve, if_neg hdelay, resolveBucket?_buckets_eq_some_iff.2 h, Option.bind_some]

/-- Every bucket has a topic. -/
theorem exists_topic (h : bucket ∈ d.buckets) : ∃ topic, d.topic? bucket = some topic := by
  obtain ⟨e, he, rfl⟩ := List.mem_map.1 h
  rcases htopic : d.topic? e.1 with _ | topic
  · rw [topic?, Option.map_eq_none_iff] at htopic
    exact absurd (List.find?_eq_none.1 htopic e he) (by simp)
  · exact ⟨topic, rfl⟩

/-- If there are buckets, a delay goes to the topic of the one it is rounded to. -/
theorem exists_bucket (hbuckets : d.buckets ≠ []) (hdelay : delay ≠ 0) (topic : String) :
    ∃ bucket, RoundsTo d.buckets delay bucket ∧ d.topic? bucket = some (d.resolve delay topic) := by
  have hfound : resolveBucket? delay d.buckets ≠ none := mt resolveBucket?_eq_none_iff.1 hbuckets
  obtain ⟨bucket, hbucket⟩ := Option.ne_none_iff_exists'.1 hfound
  have hrounds := resolveBucket?_buckets_eq_some_iff.1 hbucket
  obtain ⟨bucketTopic, htopic⟩ := exists_topic hrounds.mem
  refine ⟨bucket, hrounds, ?_⟩
  rw [resolve_eq_of_roundsTo hdelay hrounds, htopic, Option.getD_some]

/-- Where delays go by the table of a list. -/
structure FollowsList (d : DelayTopics) (pairs : List (Nat × String)) : Prop where
  /-- the buckets are those of the list -/
  mem_buckets : ∀ bucket, bucket ∈ d.buckets ↔ bucket ∈ pairs.map Prod.fst
  /-- each is there once, and they ascend -/
  ascend : d.buckets.Pairwise (· < ·)
  /-- without delay or without buckets nothing is held back -/
  stays : ∀ delay topic, delay = 0 ∨ pairs = [] → d.resolve delay topic = topic
  /-- every other delay is rounded to a bucket of the list, and goes to the topic of its last pair -/
  goes : ∀ delay topic, delay ≠ 0 → pairs ≠ [] → ∃ bucket bucketTopic,
    RoundsTo (pairs.map Prod.fst) delay bucket ∧
    pairs.reverse.find? (·.1 = bucket) = some (bucket, bucketTopic) ∧
    d.resolve delay topic = bucketTopic

theorem followsList_ofList (pairs : List (Nat × String)) : (ofList pairs).FollowsList pairs where
  mem_buckets := mem_buckets_ofList pairs
  ascend := (ofList pairs).buckets_ascend
  stays delay topic h := by
    rcases h with rfl | rfl
    · rfl
    · rw [resolve]
      split <;> rfl
  goes delay topic hdelay hpairs := by
    have hmem := mem_buckets_ofList pairs
    have hne : (ofList pairs).buckets ≠ [] := by
      obtain ⟨p, hp⟩ := List.exists_mem_of_ne_nil pairs hpairs
      exact List.ne_nil_of_mem ((hmem p.1).2 (List.mem_map_of_mem hp))
    obtain ⟨bucket, hrounds, htopic⟩ := exists_bucket hne hdelay topic
    rw [topic?_ofList, Option.map_eq_some_iff] at htopic
    obtain ⟨⟨b, bucketTopic⟩, hlast, hresolve⟩ := htopic
    obtain rfl : b = bucket := by simpa using List.find?_some hlast
    exact ⟨b, bucketTopic, hrounds.congr hmem, hlast, hresolve.symm⟩

/-- **Delays are rounded to buckets.**  Whatever the list of buckets, in whatever order and however
often one is named: a delay goes to the last topic given for the smallest bucket that is as long, or for
the largest one if none is.  On ascending buckets of any kind the search keeps the order of delays, finds
each bucket itself, and shortens a delay only where it exceeds all. -/
theorem delays_rounded (pairs : List (Nat × String)) :
    (ofList pairs).FollowsList pairs ∧
      ∀ buckets : List Nat, buckets.Pairwise (· ≤ ·) → RoundsWell buckets :=
  ⟨followsList_ofList pairs, fun _ => roundsWell_of_pairwise⟩

/-- Two buckets, of which the longer is named twice. -/
def twoBuckets : List (Nat × String) := [(600, "slow"), (5, "fast"), (600, "slower")]

theorem delays_rounded_twoBuckets :
    (ofList twoBuckets).buckets = [5, 600] ∧ (ofList twoBuckets).resolve 5 "orders" = "fast" ∧
      (ofList twoBuckets).resolve 6 "orders" = "slower" ∧
      (ofList twoBuckets).resolve 601 "orders" = "slower" ∧
      (ofList twoBuckets).FollowsList twoBuckets ∧ [5, 600].Pairwise (· ≤ ·) ∧ RoundsWell [5, 600] := by
  have hasc : [5, 600].Pairwise (· ≤ ·) := by decide
  exact ⟨by decide, by decide, by decide, by decide, (delays_rounded twoBuckets).1, hasc,
    (delays_rounded twoBuckets).2 [5, 600] hasc⟩

end DelayTopics

end ConsumerGroup
