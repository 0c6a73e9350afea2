import ConsumerGroup.Settings.Basic
import Mathlib.Control.Monad.Basic

/-!
# Where topics live

Routings are built from lists, in which the last entry of a name counts, and a topic is looked up in two
steps that both may fail.  A routed producer takes the same two steps with tables of its own.

* `IsLast` — an entry is the last of its kind in a list.
* `Settings.LivesOn` — the cluster of a topic, said of the lists; `Settings.resolve_routing_eq_iff` — it is
  what the routing gives.
* `Registration`, `RoutedProducer.registered` — a routed producer that is given producers and routes one
  after the other.
* `topics_live_once` — where topics live, and that a record goes to one producer, that of its cluster.
-/

namespace ConsumerGroup

/-! ## The last of its kind -/

/-- An entry is the last one in the list of which `p` holds. -/
def IsLast {α : Type} (p : α → Prop) (l : List α) (a : α) : Prop :=
  p a ∧ ∃ earlier later, l = earlier ++ a :: later ∧ ∀ b ∈ later, ¬ p b

section IsLast

variable {α : Type} {p : α → Prop} [DecidablePred p] {l : List α} {a : α}

/-- The last one is the first one from behind. -/
theorem isLast_iff_find?_reverse : IsLast p l a ↔ l.reverse.find? (p ·) = some a := by
  rw [IsLast, List.find?_eq_some_iff_append, decide_eq_true_eq]
  refine and_congr_right fun _ => ?_
  constructor
  · rintro ⟨earlier, later, rfl, hlater⟩
    exact ⟨later.reverse, earlier.reverse, by simp, by simpa using hlater⟩
  · rintro ⟨later, earlier, hl, hlater⟩
    refine ⟨earlier.reverse, later.reverse, ?_, by simpa using hlater⟩
    rw [← List.reverse_reverse l, hl]
    simp

theorem not_isLast_iff : (∀ a, ¬ IsLast p l a) ↔ ∀ a ∈ l, ¬ p a := by
  have hnone : (∀ a, ¬ IsLast p l a) ↔ l.reverse.find? (p ·) = none := by
    rw [Option.eq_none_iff_forall_not_mem]
    exact forall_congr' fun a => not_congr isLast_iff_find?_reverse
  rw [hnone, List.find?_eq_none]
  simp

end IsLast

/-- In a table that is built from a list the last pair of a key counts. -/
theorem Table.get?_ofList_eq_some_iff {κ ν : Type} [DecidableEq κ] {pairs : List (κ × ν)} {k : κ} {v : ν} :
    (Table.ofList pairs).get? k = some v ↔ IsLast (·.1 = k) pairs (k, v) := by
  rw [Table.get?_ofList, isLast_iff_find?_reverse, Option.map_eq_some_iff]
  constructor
  · rintro ⟨⟨k', v'⟩, hfound, rfl⟩
    have hk : k' = k := by simpa using List.find?_some hfound
    rw [hfound, hk]
  · exact fun hfound => ⟨(k, v), hfound, rfl⟩

theorem Table.get?_ofList_eq_none_iff {κ ν : Type} [DecidableEq κ] {pairs : List (κ × ν)} {k : κ} :
    (Table.ofList pairs).get? k = none ↔ ∀ e ∈ pairs, e.1 ≠ k := by
  rw [Table.get?_ofList, Option.map_eq_none_iff, List.find?_eq_none]
  simp

/-- In a table that is built from entries, a key is looked up to the value of the last entry with it. -/
theorem Table.get?_ofList_map_cases {α κ ν : Type} [DecidableEq κ] (key : α → κ) (value : α → ν)
    (l : List α) (k : κ) :
    (∃ a, IsLast (key · = k) l a ∧ (ofList (l.map fun a => (key a, value a))).get? k = some (value a)) ∨
      (∀ a ∈ l, key a ≠ k) ∧ (ofList (l.map fun a => (key a, value a))).get? k = none := by
  have hget : (ofList (l.map fun a => (key a, value a))).get? k =
      (l.reverse.find? (key · = k)).map value := by
    rw [Table.get?_ofList, ← List.map_reverse, List.find?_map, Option.map_map]
    rfl
  rw [hget]
  rcases hfound : l.reverse.find? (key · = k) with _ | a
  · refine .inr ⟨fun a ha => ?_, rfl⟩
    simpa using List.find?_eq_none.1 hfound a (List.mem_reverse.2 ha)
  · exact .inl ⟨a, isLast_iff_find?_reverse.2 hfound, rfl⟩

/-! ## Clusters of topics -/

namespace Settings

/-- The topic has no usable route: there is no cluster of the name that its last route gives. -/
def IsUnrouted (clusters : List NamedCluster) (routes : List TopicRoute) (topic : String) : Prop :=
  ∀ r, IsLast (·.topic = topic) routes r → ∀ c ∈ clusters, c.name ≠ r.clusterName

/-- The cluster a topic lives on. -/
inductive LivesOn (fallback : ClusterSpec) (clusters : List NamedCluster) (routes : List TopicRoute)
    (defaultName topic : String) : ClusterSpec → Prop where
  /-- its last route names a cluster, and this is the last one of that name -/
  | routed {r : TopicRoute} {c : NamedCluster} : IsLast (·.topic = topic) routes r →
      IsLast (·.name = r.clusterName) clusters c →
      LivesOn fallback clusters routes defaultName topic c.cluster
  /-- it has no usable route, and this is the last cluster of the special name -/
  | default {c : NamedCluster} : IsUnrouted clusters routes topic →
      IsLast (·.name = defaultName) clusters c →
      LivesOn fallback clusters routes defaultName topic c.cluster
  /-- it has no usable route, and no cluster has the special name -/
  | fallback : IsUnrouted clusters routes topic → (∀ c ∈ clusters, c.name ≠ defaultName) →
      LivesOn fallback clusters routes defaultName topic fallback

variable {fallback : ClusterSpec} {clusters : List NamedCluster} {routes : List TopicRoute}
  {defaultName topic name : String} {cluster : ClusterSpec}

/-- Without a usable route a topic is looked for under the special name. -/
theorem livesOn_default (h : IsUnrouted clusters routes topic) :
    LivesOn fallback clusters routes defaultName topic
      (((Table.ofList (clusters.map fun c => (c.name, c.cluster))).get? defaultName).getD fallback) := by
  rcases Table.get?_ofList_map_cases NamedCluster.name NamedCluster.cluster clusters
    defaultName with ⟨c, hlast, hget⟩ | ⟨hnone, hget⟩
  · rw [hget]
    exact .default h hlast
  · rw [hget]
    exact .fallback h hnone

/-- A topic lives on the cluster that the routing gives. -/
theorem livesOn_resolve (fallback : ClusterSpec) (clusters : List NamedCluster)
    (routes : List TopicRoute) (defaultName topic : String) :
    LivesOn fallback clusters routes defaultName topic
      ((routing fallback clusters routes defaultName).resolve topic) := by
  simp only [Routing.resolve, Routing.clusterName?, routing]
  rcases Table.get?_ofList_map_cases TopicRoute.topic TopicRoute.clusterName routes topic with
    ⟨r, hroute, hget⟩ | ⟨hunrouted, hget⟩
  · rw [hget]
    rcases Table.get?_ofList_map_cases NamedCluster.name NamedCluster.cluster clusters
      r.clusterName with ⟨c, hcluster, hc⟩ | ⟨hmissing, hc⟩
    · rw [Option.filter_some, if_pos (by rw [Table.contains, hc]; rfl), Option.bind_some, hc]
      exact .routed hroute hcluster
    · rw [Option.filter_some, if_neg (by rw [Table.contains, hc]; exact Bool.false_ne_true)]
      refine livesOn_default fun r' hr' => ?_
      rw [isLast_iff_find?_reverse] at hroute hr'
      obtain rfl := Option.some.inj (hroute.symm.trans hr')
      exact hmissing
  · rw [hget]
    exact livesOn_default fun r hr => absurd hr (not_isLast_iff.2 hunrouted r)

/-- A topic lives on one cluster. -/
theorem LivesOn.unique {cluster' : ClusterSpec}
    (h : LivesOn fallback clusters routes defaultName topic cluster)
    (h' : LivesOn fallback clusters routes defaultName topic cluster') : cluster = cluster' := by
  have hlast : ∀ {name : String} {c c' : NamedCluster}, IsLast (·.name = name) clusters c →
      IsLast (·.name = name) clusters c' → c = c' := by
    intro name c c' hc hc'
    rw [isLast_iff_find?_reverse] at hc hc'
    exact Option.some.inj (hc.symm.trans hc')
  have hused : ∀ {r : TopicRoute} {c : NamedCluster}, IsLast (·.topic = topic) routes r →
      IsLast (·.name = r.clusterName) clusters c → ¬ IsUnrouted clusters routes topic := by
    intro r c hr hc hun
    exact not_isLast_iff.2 (hun r hr) c hc
  cases h with
  | routed hr hc =>
    cases h' with
    | routed hr' hc' =>
      rw [isLast_iff_find?_reverse] at hr hr'
      obtain rfl := Option.some.inj (hr.symm.trans hr')
      rw [hlast hc hc']
    | default hun _ => exact absurd hun (hused hr hc)
    | fallback hun _ => exact absurd hun (hused hr hc)
  | default hun hc =>
    cases h' with
    | routed hr' hc' => exact absurd hun (hused hr' hc')
    | default _ hc' => rw [hlast hc hc']
    | fallback _ hnone => exact absurd hc (not_isLast_iff.2 hnone _)
  | fallback hun hnone =>
    cases h' with
    | routed hr' hc' => exact absurd hun (hused hr' hc')
    | default _ hc' => exact absurd hc' (not_isLast_iff.2 hnone _)
    | fallback _ _ => rfl

theorem resolve_routing_eq_iff :
    (routing fallback clusters routes defaultName).resolve topic = cluster ↔
      LivesOn fallback clusters routes defaultName topic cluster := by
  have hlives := livesOn_resolve fallback clusters routes defaultName topic
  constructor
  · rintro rfl
    exact hlives
  · exact hlives.unique

end Settings

/-! ## Producers of topics -/

/-- What a routed producer is given. -/
inductive Registration (π : Type) where
  /-- the producer of a cluster -/
  | cluster (name : String) (producer : π)
  /-- a route -/
  | route (topic cluster : String)

namespace RoutedProducer

variable {π : Type} {f : Type → Type} [Monad f]

/-- Takes what it is given. -/
def register (r : RoutedProducer π) : Registration π → RoutedProducer π
  | .cluster name producer => r.withCluster name producer
  | .route topic cluster => r.withRoute topic cluster

/-- A routed producer that is given one thing after the other. -/
def registered (fallback : Option π) (given : List (Registration π)) : RoutedProducer π :=
  given.foldl register { fallback }

/-- The producers among what is given. -/
def producersIn (given : List (Registration π)) : List (String × π) :=
  given.filterMap fun
    | .cluster name producer => some (name, producer)
    | .route .. => none

/-- The routes among what is given. -/
def routesIn (given : List (Registration π)) : List (String × String) :=
  given.filterMap fun
    | .cluster .. => none
    | .route topic cluster => some (topic, cluster)

theorem foldl_register (given : List (Registration π)) (r : RoutedProducer π) :
    given.foldl register r =
      { r with
        producers := (producersIn given).foldl (fun t e => t.insert e.1 e.2) r.producers
        routes := (routesIn given).foldl (fun t e => t.insert e.1 e.2) r.routes } := by
  induction given generalizing r with
  | nil => rfl
  | cons g given ih =>
    rw [List.foldl_cons, ih]
    cases g <;> rfl

/-- The tables of a routed producer are those of the lists it was given. -/
theorem registered_eq (fallback : Option π) (given : List (Registration π)) :
    registered fallback given =
      { fallback
        producers := Table.ofList (producersIn given)
        routes := Table.ofList (routesIn given) } :=
  foldl_register given { fallback }

/-- A producer is given for each cluster of a routing and for no other, and the same routes. -/
structure Covers (given : List (Registration π)) (r : Routing) : Prop where
  /-- the clusters -/
  clusters : ∀ name, (∃ producer, (name, producer) ∈ producersIn given) ↔ r.clusters.contains name = true
  /-- the routes -/
  routes : ∀ topic name, IsLast (·.1 = topic) (routesIn given) (topic, name) ↔
    r.routes.get? topic = some name

/-- Who is to get the records of a topic. -/
inductive Serves (given : List (Registration π)) (fallback : Option π) (r : Routing) (topic : String) :
    Option π → Prop where
  /-- the producer that was last given for the cluster of the topic -/
  | routed {name : String} {producer : π} : r.clusterName? topic = some name →
      IsLast (·.1 = name) (producersIn given) (name, producer) →
      Serves given fallback r topic (some producer)
  /-- the default, if there is one, for a topic without a usable route -/
  | unrouted : r.clusterName? topic = none → Serves given fallback r topic fallback

variable {given : List (Registration π)} {fallback : Option π} {r : Routing}

/-- Both routings take the same way. -/
theorem Covers.serves (h : Covers given r) (topic : String) :
    Serves given fallback r topic ((registered fallback given).producer? topic) := by
  have hroutes : (Table.ofList (routesIn given)).get? topic = r.routes.get? topic :=
    Option.ext fun name => Table.get?_ofList_eq_some_iff.trans (h.routes topic name)
  rw [registered_eq, producer?, hroutes]
  rcases hname : r.routes.get? topic with _ | name
  · exact .unrouted (by rw [Routing.clusterName?, hname]; rfl)
  · rw [Option.bind_some]
    rcases hget : (Table.ofList (producersIn given)).get? name with _ | producer
    · refine .unrouted ?_
      have hmissing : ¬ r.clusters.contains name = true := fun hc => by
        obtain ⟨producer, hmem⟩ := (h.clusters name).2 hc
        exact Table.get?_ofList_eq_none_iff.1 hget _ hmem rfl
      rw [Routing.clusterName?, hname, Option.filter_some, if_neg hmissing]
    · have hlast := Table.get?_ofList_eq_some_iff.1 hget
      have hmem : (name, producer) ∈ producersIn given := by
        obtain ⟨-, earlier, later, heq, -⟩ := hlast
        simp [heq]
      refine .routed ?_ hlast
      rw [Routing.clusterName?, hname, Option.filter_some, if_pos ((h.clusters name).1 ⟨producer, hmem⟩)]

/-- Producers each of which notes, before it answers, that it was handed a record. -/
def notingEach {α : Type} (send : π → Record → f α) (producer : π) (record : Record) :
    StateT (List (π × Record)) f α := do
  modify (· ++ [(producer, record)])
  send producer record

/-- What publishing a record comes to: who serves its topic is handed the record, nobody else is, and the
answer is passed on; without anybody to serve it nobody is called. -/
theorem run_publish_notingEach [LawfulMonad f] (p : RoutedProducer π)
    (send : π → Record → f (Except BrokerError Unit)) (record : Record) (handed : List (π × Record)) :
    (p.publish (notingEach send) record).run handed =
      match p.producer? record.topic with
      | some producer => (fun answer => (answer, handed ++ [(producer, record)])) <$> send producer record
      | none => pure (.error (.noProducer record.topic), handed) := by
  rw [publish]
  cases p.producer? record.topic with
  | none => simp
  | some producer => simp [notingEach]

end RoutedProducer

open RoutedProducer in
/-- **Topics live on one cluster.**  A topic lives on the last cluster of the name that its last route
gives, else on the last one of the special name, else on the default one; and what is listed for records
does not matter to consumers, nor the other way round.  A routed producer with a producer for each cluster
and the same routes hands a record, as it is, to one producer, the one for the cluster of its topic or else
the default one, and returns what that answers.  If there is neither it calls nobody. -/
theorem topics_live_once (s : Settings) :
    (∀ topic cluster, s.consumerRouting.resolve topic = cluster ↔ Settings.LivesOn s.defaultCluster
      s.consumerClusters s.consumerTopics "default_consumer" topic cluster) ∧
    (∀ topic cluster, s.producerRouting.resolve topic = cluster ↔ Settings.LivesOn s.defaultCluster
      s.producerClusters s.producerTopics "default_producer" topic cluster) ∧
    (∀ clusters routes topic,
      { s with producerClusters := clusters, producerTopics := routes }.consumerRouting.resolve topic =
        s.consumerRouting.resolve topic ∧
      { s with consumerClusters := clusters, consumerTopics := routes }.producerRouting.resolve topic =
        s.producerRouting.resolve topic) ∧
    ∀ (π : Type) (given : List (Registration π)) (fallback : Option π) (r : Routing), Covers given r →
      ∀ record : Record, ∃ target, Serves given fallback r record.topic target ∧
        ∀ (f : Type → Type) [Monad f] [LawfulMonad f]
          (send : π → Record → f (Except BrokerError Unit)) (handed : List (π × Record)),
          ((registered fallback given).publish (notingEach send) record).run handed =
            match target with
            | some producer =>
              (fun answer => (answer, handed ++ [(producer, record)])) <$> send producer record
            | none => pure (.error (.noProducer record.topic), handed) := by
  refine ⟨fun _ _ => Settings.resolve_routing_eq_iff, fun _ _ => Settings.resolve_routing_eq_iff,
    fun _ _ _ => ⟨rfl, rfl⟩, fun π given fallback r h record => ?_⟩
  exact ⟨_, h.serves record.topic, fun f _ _ send handed => run_publish_notingEach _ send record handed⟩

/-- A cluster that is listed twice, a topic that is routed twice, and one that is routed nowhere. -/
def listedTwice : Settings where
  consumerClusters :=
    [⟨"east", { brokers := ["a:9092"] }⟩, ⟨"default_consumer", { brokers := ["b:9092"] }⟩,
      ⟨"east", { brokers := ["c:9092"] }⟩]
  consumerTopics := [⟨"orders", "default_consumer"⟩, ⟨"orders", "east"⟩, ⟨"audit", "nowhere"⟩]

/-- Producers and routes of the same names, of which one producer is given twice. -/
def givenTwice : List (Registration String) :=
  [.cluster "east" "first", .route "orders" "default_consumer", .cluster "east" "second",
    .route "orders" "east", .route "audit" "nowhere", .cluster "default_consumer" "other"]

theorem covers_givenTwice : RoutedProducer.Covers givenTwice listedTwice.consumerRouting where
  clusters name := by
    have hkeys : listedTwice.consumerRouting.clusters.keys = ["east", "default_consumer"] := by decide
    rw [Table.contains_iff_mem_keys, hkeys]
    simp [givenTwice, RoutedProducer.producersIn, exists_or]
  routes _ _ := Table.get?_ofList_eq_some_iff.symm

open RoutedProducer in
theorem topics_live_once_listedTwice :
    listedTwice.consumerRouting.resolve "orders" = { brokers := ["c:9092"] } ∧
      Settings.LivesOn {} listedTwice.consumerClusters listedTwice.consumerTopics "default_consumer"
        "orders" { brokers := ["c:9092"] } ∧
      listedTwice.consumerRouting.resolve "audit" = { brokers := ["b:9092"] } ∧
      Covers givenTwice listedTwice.consumerRouting ∧
      (∃ target, Serves givenTwice none listedTwice.consumerRouting "orders" target ∧
        Id.run (((registered none givenTwice).publish (notingEach fun _ _ => pure (.ok ()))
          ⟨"orders", .empty, ⟨[]⟩⟩).run []) = (.ok (), [("second", ⟨"orders", .empty, ⟨[]⟩⟩)]) ∧
        target = some "second") := by
  have horders : listedTwice.consumerRouting.resolve "orders" = { brokers := ["c:9092"] } := by decide
  refine ⟨horders, (topics_live_once listedTwice).1 _ _ |>.1 horders, by decide, covers_givenTwice, ?_⟩
  obtain ⟨target, hserves, hrun⟩ := (topics_live_once listedTwice).2.2.2 String givenTwice none
    listedTwice.consumerRouting covers_givenTwice ⟨"orders", .empty, ⟨[]⟩⟩
  have hanswer := hrun Id (fun _ _ => pure (.ok ())) []
  have hsecond : target = some "second" := by
    cases hserves with
    | routed hname hlast =>
      have heast : listedTwice.consumerRouting.clusterName? "orders" = some "east" := by decide
      obtain rfl := Option.some.inj (heast.symm.trans hname)
      have hfound := Table.get?_ofList_eq_some_iff.2 hlast
      exact hfound.symm.trans (by decide)
    | unrouted hname => exact absurd hname (by decide)
  subst hsecond
  exact ⟨_, hserves, hanswer, rfl⟩

end ConsumerGroup
