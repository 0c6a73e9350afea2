import ConsumerGroup.Proofs.Registration
import ConsumerGroup.Settings.Validation
import Mathlib.Data.List.Forall2

/-!
# Valid settings

The validation of settings goes through lists, with what it has seen so far.  What is run on them is
built into tables, where later entries take the place of earlier ones.

* `Settings.Valid` — the rules; `problems_eq_nil_iff` — the validation finds nothing exactly when they
  hold.
* `Settings.Usable` — what can be relied on: each consumer has a cluster and a group, and nothing that is
  listed is lost.
* `usable_of_valid` — valid settings are usable.
-/

namespace ConsumerGroup

/-! ## Rules -/

namespace Settings

/-- The cluster messages are read from by default: the last one of a special name, if there is one. -/
def defaultConsumerCluster (s : Settings) : ClusterSpec :=
  match s.consumerClusters.reverse.find? (·.name = defaultConsumerName) with
  | some c => c.cluster
  | none => s.defaultCluster

/-- The rules for a list of clusters. -/
structure ValidClusters (clusters : List NamedCluster) : Prop where
  /-- each has a name -/
  named : ∀ c ∈ clusters, Text.isBlankText c.name = false
  /-- no two have the same -/
  distinct : (clusters.map NamedCluster.name).Nodup
  /-- each has a broker -/
  reachable : ∀ c ∈ clusters, c.cluster.brokers ≠ []

/-- The rules for settings. -/
structure Valid (s : Settings) : Prop where
  /-- consumers have a broker to read from by default -/
  default : s.consumers = [] ∨ s.defaultConsumerCluster.brokers ≠ []
  /-- the clusters records are published to -/
  producers : ValidClusters s.producerClusters
  /-- the clusters messages are read from -/
  consumers : ValidClusters s.consumerClusters
  /-- each consumer has a topic and a group -/
  entries : ∀ e ∈ s.consumers, Text.isBlankText e.topic = false ∧ s.groupIds e.groupLevel ≠ []
  /-- each delay is positive, and has a topic -/
  delays : ∀ e ∈ s.delayTopics, 0 < e.seconds ∧ Text.isBlankText e.topic = false
  /-- no two are as long -/
  buckets : (s.delayTopics.map DelayTopicEntry.seconds).Nodup

/-- The cluster that is not looked for by name. -/
theorem fallback_consumerRouting (s : Settings) :
    s.consumerRouting.fallback = s.defaultConsumerCluster := by
  rw [consumerRouting, routing, Table.get?_ofList, ← List.map_reverse, List.find?_map,
    defaultConsumerCluster]
  change ((s.consumerClusters.reverse.find? (·.name = defaultConsumerName)).map _ |>.map _).getD _ = _
  cases s.consumerClusters.reverse.find? (·.name = defaultConsumerName) with
  | none => rfl
  | some c => rfl

theorem validClusters_cons_iff (c : NamedCluster) (clusters : List NamedCluster) :
    ValidClusters (c :: clusters) ↔ (Text.isBlankText c.name = false ∧ c.cluster.brokers ≠ []) ∧
      (∀ c' ∈ clusters, c'.name ≠ c.name) ∧ ValidClusters clusters := by
  constructor
  · intro h
    obtain ⟨hnamed, hnameds⟩ := List.forall_mem_cons.1 h.named
    obtain ⟨hreached, hreacheds⟩ := List.forall_mem_cons.1 h.reachable
    obtain ⟨hnew, hdistinct⟩ := List.nodup_cons.1 h.distinct
    exact ⟨⟨hnamed, hreached⟩, fun c' hc' heq => hnew (heq ▸ List.mem_map_of_mem hc'),
      hnameds, hdistinct, hreacheds⟩
  · rintro ⟨⟨hnamed, hreached⟩, hnew, h⟩
    refine ⟨List.forall_mem_cons.2 ⟨hnamed, h.named⟩, List.nodup_cons.2 ⟨fun hm => ?_, h.distinct⟩,
      List.forall_mem_cons.2 ⟨hreached, h.reachable⟩⟩
    obtain ⟨c', hc', heq⟩ := List.mem_map.1 hm
    exact hnew c' hc' heq

/-- Nothing is wrong with clusters when the rules hold and none has a name that was seen before. -/
theorem clusterProblems_eq_nil_iff (role : ClusterRole) (seen : List String)
    (clusters : List NamedCluster) :
    clusterProblems role seen clusters = [] ↔
      ValidClusters clusters ∧ ∀ c ∈ clusters, c.name ∉ seen := by
  induction clusters generalizing seen with
  | nil => exact iff_of_true rfl ⟨⟨nofun, List.nodup_nil, nofun⟩, nofun⟩
  | cons c clusters ih =>
    rw [clusterProblems, validClusters_cons_iff, List.forall_mem_cons]
    cases hblank : Text.isBlankText c.name with
    | true => simp
    | false =>
      have hseen : (∀ c' ∈ clusters, c'.name ∉ c.name :: seen) ↔
          (∀ c' ∈ clusters, c'.name ≠ c.name) ∧ ∀ c' ∈ clusters, c'.name ∉ seen := by
        simp only [List.mem_cons, not_or, ← forall₂_and]
      by_cases hc : c.name ∈ seen
      · simp [hc]
      · by_cases hb : c.cluster.brokers = []
        · simp [hb]
        · simp only [Bool.false_eq_true, if_false, List.contains_iff_mem, hc, List.isEmpty_iff, hb,
            List.nil_append, ih, hseen, ne_eq, not_false_eq_true, and_self, true_and]
          exact and_left_comm.trans and_assoc.symm

theorem consumerProblems_eq_nil_iff (s : Settings) (index : Nat) (entries : List ConsumerEntry) :
    consumerProblems s index entries = [] ↔
      ∀ e ∈ entries, Text.isBlankText e.topic = false ∧ s.groupIds e.groupLevel ≠ [] := by
  induction entries generalizing index with
  | nil => exact iff_of_true rfl nofun
  | cons e entries ih =>
    rw [consumerProblems, List.forall_mem_cons, List.append_eq_nil_iff, ih]
    refine and_congr_left fun _ => ?_
    cases hblank : Text.isBlankText e.topic with
    | true => simp
    | false => by_cases hg : s.groupIds e.groupLevel = [] <;> simp [hg]

/-- Nothing is wrong with delay topics when the rules hold and none is as long as one that was seen
before. -/
theorem delayProblems_eq_nil_iff (seen : List Nat) (entries : List DelayTopicEntry) :
    delayProblems seen entries = [] ↔
      (∀ e ∈ entries, 0 < e.seconds ∧ Text.isBlankText e.topic = false) ∧
        (entries.map DelayTopicEntry.seconds).Nodup ∧ ∀ e ∈ entries, e.seconds ∉ seen := by
  induction entries generalizing seen with
  | nil => exact iff_of_true rfl ⟨nofun, List.nodup_nil, nofun⟩
  | cons e entries ih =>
    have hseen : (∀ e' ∈ entries, e'.seconds ∉ e.seconds :: seen) ↔
        e.seconds ∉ entries.map DelayTopicEntry.seconds ∧ ∀ e' ∈ entries, e'.seconds ∉ seen := by
      simp only [List.mem_cons, not_or, List.mem_map, not_exists, not_and, ← forall₂_and]
    rw [delayProblems, List.append_eq_nil_iff, List.append_eq_nil_iff, List.append_eq_nil_iff, ih, hseen,
      List.forall_mem_cons, List.forall_mem_cons, List.map_cons, List.nodup_cons]
    have hpositive : (if e.seconds = 0 then [Problem.zeroDelay e.topic] else []) = [] ↔
        0 < e.seconds := by
      split <;> simp_all [Nat.pos_iff_ne_zero]
    have hnamed : (if Text.isBlankText e.topic then [Problem.blankDelayTopic e.seconds] else []) = [] ↔
        Text.isBlankText e.topic = false := by
      split <;> simp_all
    have hnew : (if seen.contains e.seconds then [Problem.duplicateBucket e.seconds] else []) = [] ↔
        e.seconds ∉ seen := by
      split <;> simp_all
    rw [hpositive, hnamed, hnew]
    constructor
    · rintro ⟨⟨⟨hpos, hname⟩, hseen⟩, hrest, hdistinct, hnot, hunseen⟩
      exact ⟨⟨⟨hpos, hname⟩, hrest⟩, ⟨hnot, hdistinct⟩, hseen, hunseen⟩
    · rintro ⟨⟨⟨hpos, hname⟩, hrest⟩, ⟨hnot, hdistinct⟩, hseen, hunseen⟩
      exact ⟨⟨⟨hpos, hname⟩, hseen⟩, hrest, hdistinct, hnot, hunseen⟩

/-- **Validation.**  It finds nothing exactly when the rules hold. -/
theorem problems_eq_nil_iff (s : Settings) : s.problems = [] ↔ s.Valid := by
  have hdefault : (if s.consumers.isEmpty || !s.consumerRouting.fallback.brokers.isEmpty then []
      else [Problem.noDefaultBrokers]) = [] ↔
      s.consumers = [] ∨ s.defaultConsumerCluster.brokers ≠ [] := by
    rw [fallback_consumerRouting]
    split <;> simp_all
  have hunseen : ∀ clusters : List NamedCluster, ∀ c ∈ clusters, c.name ∉ [] :=
    fun _ _ _ => List.not_mem_nil
  rw [problems, List.append_eq_nil_iff, List.append_eq_nil_iff, List.append_eq_nil_iff,
    List.append_eq_nil_iff, hdefault, clusterProblems_eq_nil_iff, clusterProblems_eq_nil_iff,
    consumerProblems_eq_nil_iff, delayProblems_eq_nil_iff]
  constructor
  · rintro ⟨⟨⟨⟨hdefault, hproducers, -⟩, hconsumers, -⟩, hentries⟩, hdelays, hbuckets, -⟩
    exact ⟨hdefault, hproducers, hconsumers, hentries, hdelays, hbuckets⟩
  · intro h
    exact ⟨⟨⟨⟨h.default, h.producers, hunseen _⟩, h.consumers, hunseen _⟩, h.entries⟩, h.delays,
      h.buckets, fun _ _ => List.not_mem_nil⟩

/-! ## Clusters -/

/-- A table of clusters of different names has each under its name. -/
theorem get?_routing {fallback : ClusterSpec} {clusters : List NamedCluster}
    (routes : List TopicRoute) (defaultName : String) (h : ValidClusters clusters) :
    (routing fallback clusters routes defaultName).clusters.size = clusters.length ∧
      ∀ c ∈ clusters,
        (routing fallback clusters routes defaultName).clusters.get? c.name = some c.cluster := by
  have hkeys : ((clusters.map fun c => (c.name, c.cluster)).map Prod.fst).Nodup := by
    rw [List.map_map]
    exact h.distinct
  have hentries : (routing fallback clusters routes defaultName).clusters.entries =
      clusters.map fun c => (c.name, c.cluster) := Table.entries_ofList hkeys
  refine ⟨by rw [Table.size, hentries, List.length_map], fun c hc => ?_⟩
  have hmem : (c.name, c.cluster) ∈
      (routing fallback clusters routes defaultName).clusters.entries := by
    rw [hentries]
    exact List.mem_map_of_mem hc
  exact Table.get?_eq_some_of_mem (Table.nodup_keys_ofList _) hmem

/-- What a topic is resolved to is one of the clusters, or the one that is not looked for by name. -/
theorem resolve_routing (fallback : ClusterSpec) (clusters : List NamedCluster)
    (routes : List TopicRoute) (defaultName topic : String) :
    let r := routing fallback clusters routes defaultName
    r.resolve topic = r.fallback ∨ ∃ c ∈ clusters, r.resolve topic = c.cluster := by
  intro r
  rw [Routing.resolve]
  rcases hfound : (r.clusterName? topic).bind r.clusters.get? with _ | cluster
  · exact .inl rfl
  · obtain ⟨name, -, hget⟩ := Option.bind_eq_some_iff.1 hfound
    change (Table.ofList _).get? name = some cluster at hget
    rw [Table.get?_ofList, Option.map_eq_some_iff] at hget
    obtain ⟨e, he, rfl⟩ := hget
    obtain ⟨c, hc, rfl⟩ := List.mem_map.1 (List.mem_reverse.1 (List.mem_of_find?_eq_some he))
    exact .inr ⟨c, hc, rfl⟩

end Settings

/-! ## Delay topics -/

/-- A bucket of a new length is added. -/
theorem perm_insertAscending {key : Nat} (value : String) {l : List (Nat × String)}
    (h : key ∉ l.map Prod.fst) : (insertAscending key value l).Perm ((key, value) :: l) := by
  induction l with
  | nil => exact .refl _
  | cons e l ih =>
    rw [List.map_cons, List.mem_cons, not_or] at h
    rw [insertAscending]
    split
    · exact .refl _
    · rw [if_neg h.1]
      exact ((ih h.2).cons e).trans (.swap _ _ _)

namespace DelayTopics

/-- Buckets of different lengths are all there. -/
theorem perm_ofList {pairs : List (Nat × String)} (h : (pairs.map Prod.fst).Nodup) :
    (ofList pairs).entries.Perm pairs := by
  have hfold : ∀ (pairs : List (Nat × String)) (d : DelayTopics),
      (d.buckets ++ pairs.map Prod.fst).Nodup →
      (pairs.foldl (fun d p => d.insert p.1 p.2) d).entries.Perm (d.entries ++ pairs) := by
    intro pairs
    induction pairs with
    | nil => exact fun d _ => by rw [List.append_nil, List.foldl_nil]
    | cons p pairs ih =>
      intro d hd
      have hnew : p.1 ∉ d.entries.map Prod.fst := fun hm =>
        (List.nodup_append.1 hd).2.2 _ hm _ List.mem_cons_self rfl
      have hperm : (d.insert p.1 p.2).entries.Perm (d.entries ++ [p]) :=
        (perm_insertAscending p.2 hnew).trans (List.perm_append_singleton p _).symm
      have hbuckets : (d.insert p.1 p.2).buckets.Perm (d.buckets ++ [p.1]) := by
        rw [buckets, buckets, ← List.map_singleton, ← List.map_append]
        exact hperm.map _
      refine (ih (d.insert p.1 p.2) ?_).trans ?_
      · rw [(hbuckets.append_right _).nodup_iff, List.append_assoc]
        exact hd
      · rw [List.append_cons]
        exact hperm.append_right pairs
  exact hfold pairs ∅ h

/-- A bucket has its topic. -/
theorem topic?_eq_some_of_mem {d : DelayTopics} {bucket : Nat} {topic : String}
    (h : (bucket, topic) ∈ d.entries) : d.topic? bucket = some topic := by
  have hkeys : (d.entries.map Prod.fst).Nodup :=
    List.pairwise_map.2 (d.ascending.imp Nat.ne_of_lt)
  rw [topic?]
  rcases hfound : d.entries.find? (·.1 == bucket) with _ | e
  · exact absurd (List.find?_eq_none.1 hfound _ h) (by simp)
  · have hb : e.1 = bucket := by simpa using List.find?_some hfound
    have he : e = (bucket, topic) :=
      List.inj_on_of_nodup_map hkeys (List.mem_of_find?_eq_some hfound) h hb
    rw [hfound, he]
    rfl

end DelayTopics

/-! ## What can be relied on -/

namespace Settings

/-- What can be relied on with settings. -/
structure Usable (s : Settings) : Prop where
  /-- each consumer has a cluster with a broker -/
  resolves : ∀ e ∈ s.consumers, (s.consumerRouting.resolve e.topic).brokers ≠ []
  /-- if the configurations can be built there is one for each group of each consumer, so at least one
  for each consumer -/
  configs : ∀ configs, s.consumerConfigs = .ok configs → ∃ blocks, configs = blocks.flatten ∧
    List.Forall₂ (fun (e : ConsumerEntry) (block : List ConsumerConfig) => block ≠ [] ∧
      block.map (fun config => (config.topic, config.groupId)) =
        (s.groupIds e.groupLevel).map fun groupId => (e.topic, groupId)) s.consumers blocks
  /-- no cluster that messages are read from is lost -/
  consumers : s.consumerRouting.clusters.size = s.consumerClusters.length ∧
    ∀ c ∈ s.consumerClusters, s.consumerRouting.clusters.get? c.name = some c.cluster
  /-- and none that records are published to -/
  producers : s.producerRouting.clusters.size = s.producerClusters.length ∧
    ∀ c ∈ s.producerClusters, s.producerRouting.clusters.get? c.name = some c.cluster
  /-- if delay topics are listed there is a bucket for each, with its topic -/
  buckets : s.delayTopics ≠ [] →
    s.delayTopicTable.buckets.Perm (s.delayTopics.map DelayTopicEntry.seconds) ∧
      ∀ e ∈ s.delayTopics, s.delayTopicTable.topic? e.seconds = some e.topic

/-- What is built from a list of blocks comes in blocks. -/
theorem exists_blocks {α β γ δ : Type} {f : β → δ} {g : α → List γ} {h : γ → δ} {xs : List β}
    {l : List α} (hxs : xs.map f = (l.flatMap g).map h) :
    ∃ blocks, xs = blocks.flatten ∧
      List.Forall₂ (fun a block => block.map f = (g a).map h) l blocks := by
  induction l generalizing xs with
  | nil => exact ⟨[], List.map_eq_nil_iff.1 hxs, .nil⟩
  | cons a l ih =>
    rw [List.flatMap_cons, List.map_append] at hxs
    obtain ⟨block, rest, rfl, hblock, hrest⟩ := List.map_eq_append_iff.1 hxs
    obtain ⟨blocks, rfl, hblocks⟩ := ih hrest
    exact ⟨block :: blocks, rfl, .cons hblock hblocks⟩

/-- Valid settings are usable. -/
theorem usable_of_valid {s : Settings} (h : s.Valid) : s.Usable where
  resolves e he := by
    rcases resolve_routing s.defaultCluster s.consumerClusters s.consumerTopics defaultConsumerName
      e.topic with hfallback | ⟨c, hc, hnamed⟩
    · rw [consumerRouting, hfallback]
      have hdefault := h.default.resolve_left (List.ne_nil_of_mem he)
      rw [← fallback_consumerRouting] at hdefault
      exact hdefault
    · rw [consumerRouting, hnamed]
      exact h.consumers.reachable c hc
  configs configs hconfigs := by
    rcases s.consumerConfigs_cases with ⟨error, -, herror⟩ | ⟨-, configs', hconfigs', hmap⟩
    · cases hconfigs.symm.trans herror
    · obtain rfl := Except.ok.inj (hconfigs.symm.trans hconfigs')
      obtain ⟨blocks, rfl, hblocks⟩ := exists_blocks hmap
      refine ⟨blocks, rfl, ((List.forall₂_and_left s.consumers blocks).2 ⟨h.entries, hblocks⟩).imp ?_⟩
      rintro e block ⟨⟨-, hgroups⟩, hblock⟩
      rw [List.map_map] at hblock
      refine ⟨?_, hblock⟩
      rintro rfl
      exact hgroups (List.map_eq_nil_iff.1 hblock.symm)
  consumers := get?_routing _ _ h.consumers
  producers := get?_routing _ _ h.producers
  buckets hne := by
    have hkeys : ((s.delayTopics.map fun e => (e.seconds, e.topic)).map Prod.fst).Nodup := by
      rw [List.map_map]
      exact h.buckets
    have hperm := DelayTopics.perm_ofList hkeys
    rw [delayTopicTable, if_neg (by simpa using hne)]
    refine ⟨?_, fun e he => DelayTopics.topic?_eq_some_of_mem (hperm.mem_iff.2 (List.mem_map_of_mem he))⟩
    have hbuckets := hperm.map Prod.fst
    rw [List.map_map] at hbuckets
    exact hbuckets

/-- **Validation.**  It finds nothing exactly when the rules hold.  Then each consumer reads from a cluster
that has a broker, and gets at least one configuration if all can be built; no named cluster is lost; and
if delay topics are listed there is one bucket for each. -/
theorem validation_exact (s : Settings) : (s.problems = [] ↔ s.Valid) ∧ (s.problems = [] → s.Usable) :=
  ⟨problems_eq_nil_iff s, fun h => usable_of_valid ((problems_eq_nil_iff s).1 h)⟩

/-- A consumer of a topic that is routed to a cluster of its own, with two groups and two delays. -/
def routed : Settings where
  consumerClusters := [⟨"default_consumer", { brokers := ["a:9092"] }⟩, ⟨"east", { brokers := ["b:9092"] }⟩]
  consumerTopics := [⟨"orders", "east"⟩]
  consumers := [{ topic := "orders", groupLevel := " Gold ", delays := [30, 60], retryTimes := 2 }]
  groupLevels := [("gold", ["billing", "audit"])]
  delayTopics := [⟨60, "delay_long"⟩, ⟨30, "delay_short"⟩]

theorem validation_exact_routed :
    routed.problems = [] ∧ routed.Valid ∧ routed.Usable ∧
      (routed.consumerRouting.resolve "orders").brokers = ["b:9092"] ∧
      (∃ configs, routed.consumerConfigs = .ok configs ∧
        configs.map ConsumerConfig.groupId = ["billing", "audit"]) ∧
      routed.delayTopicTable.buckets = [30, 60] := by
  have h : routed.problems = [] := by decide +kernel
  have hgroups : routed.consumerConfigs.toOption.map (·.map ConsumerConfig.groupId) =
      some ["billing", "audit"] := by decide +kernel
  refine ⟨h, (validation_exact routed).1.1 h, (validation_exact routed).2 h, by decide +kernel, ?_,
    by decide +kernel⟩
  rcases hconfigs : routed.consumerConfigs with error | configs <;> rw [hconfigs] at hgroups
  · cases hgroups
  · exact ⟨configs, rfl, Option.some.inj hgroups⟩

end Settings

end ConsumerGroup
