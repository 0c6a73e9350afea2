import ConsumerGroup.Cluster
import ConsumerGroup.ConsumerConfig
import ConsumerGroup.Text.Blank
import ConsumerGroup.Text.LowerCase

/-!
# Settings

What a settings file says, and what is derived from it: routings, delay topics, the group ids of a
level, and the configurations of all consumers.
-/

namespace ConsumerGroup

/-- A cluster with the name that routes use for it. -/
structure NamedCluster where
  /-- the name -/
  name : String
  /-- the cluster -/
  cluster : ClusterSpec
  deriving Repr, DecidableEq, Inhabited

/-- A route from a topic to a named cluster. -/
structure TopicRoute where
  /-- the topic -/
  topic : String
  /-- the name of the cluster -/
  clusterName : String
  deriving Repr, DecidableEq, Inhabited

/-- A consumer of a topic, for all groups of a level. -/
structure ConsumerEntry where
  /-- the topic -/
  topic : String
  /-- the level that stands for the groups -/
  groupLevel : String := ""
  /-- the delays of its redeliveries in seconds -/
  delays : List Nat := []
  /-- how often a failed message is redelivered -/
  retryTimes : Nat := 0
  /-- how many handlers of a partition run at a time; zero asks for the usual number -/
  concurrency : Nat := 0
  /-- how many seconds a released partition waits for its handlers -/
  drainSeconds : Option Nat := none
  deriving Repr, DecidableEq, Inhabited

/-- A delay bucket with its topic. -/
structure DelayTopicEntry where
  /-- the length of the delay -/
  seconds : Nat
  /-- the topic -/
  topic : String
  deriving Repr, DecidableEq, Inhabited

/-- The content of a settings file. -/
structure Settings where
  /-- the cluster that is used where none of a special name is given -/
  defaultCluster : ClusterSpec := {}
  /-- the clusters records are published to -/
  producerClusters : List NamedCluster := []
  /-- the clusters messages are read from -/
  consumerClusters : List NamedCluster := []
  /-- the routes of published records -/
  producerTopics : List TopicRoute := []
  /-- the routes of consumers -/
  consumerTopics : List TopicRoute := []
  /-- the consumers -/
  consumers : List ConsumerEntry := []
  /-- the groups of each level -/
  groupLevels : List (String × List String) := []
  /-- the delay buckets -/
  delayTopics : List DelayTopicEntry := []
  /-- how the topics of the standard buckets start, where no buckets are given -/
  delayTopicStart : Option String := none
  deriving Repr, DecidableEq, Inhabited

namespace Settings

/-- The cluster of this name is the default for publishing. -/
def defaultProducerName : String := "default_producer"

/-- The cluster of this name is the default for reading. -/
def defaultConsumerName : String := "default_consumer"

/-- The level of the groups for levels that are not listed. -/
def defaultLevel : String := "default"

/-! ## Routings -/

/-- The routing of some clusters and routes, where later ones replace earlier ones.  Its default is
the cluster of a special name, if there is one. -/
def routing (fallback : ClusterSpec) (clusters : List NamedCluster) (routes : List TopicRoute)
    (defaultName : String) : Routing :=
  let table := Table.ofList (clusters.map fun c => (c.name, c.cluster))
  { fallback := (table.get? defaultName).getD fallback
    clusters := table
    routes := Table.ofList (routes.map fun r => (r.topic, r.clusterName)) }

/-- Where messages are read from. -/
def consumerRouting (s : Settings) : Routing :=
  routing s.defaultCluster s.consumerClusters s.consumerTopics defaultConsumerName

/-- Where records are published to. -/
def producerRouting (s : Settings) : Routing :=
  routing s.defaultCluster s.producerClusters s.producerTopics defaultProducerName

/-! ## Delay topics -/

/-- The delay topics: the listed buckets, else the standard ones, else none. -/
def delayTopicTable (s : Settings) : DelayTopics :=
  if s.delayTopics.isEmpty then
    match s.delayTopicStart with
    | some start => .standard start
    | none => ∅
  else .ofList (s.delayTopics.map fun e => (e.seconds, e.topic))

/-! ## Groups -/

/-- The form in which levels are compared: trimmed, and in lower case. -/
def normalLevel (level : String) : String := Text.lower (Text.trim level)

/-- The groups of the first listed level of that normal form. -/
def groupsOf? (s : Settings) (level : String) : Option (List String) :=
  (s.groupLevels.find? fun e => normalLevel e.1 == level).map Prod.snd

/-- The groups of a level; for a level that is not listed, those of the default level. -/
def groupIds (s : Settings) (level : String) : List String :=
  match s.groupsOf? (normalLevel level) with
  | some ids => ids
  | none => (s.groupsOf? defaultLevel).getD []

/-! ## Consumers -/

/-- What an entry asks for in one of its groups. -/
def ConsumerEntry.request (e : ConsumerEntry) (groupId : String) : ConsumerRequest where
  groupId
  topic := e.topic
  concurrency := e.concurrency
  retryLimit := e.retryTimes
  ladder := ⟨e.delays⟩
  drainMillis := (e.drainSeconds.getD defaultDrainSeconds) * 1000

/-- What all entries ask for, in order, and for each in the order of its groups. -/
def requests (s : Settings) : List ConsumerRequest :=
  s.consumers.flatMap fun e => (s.groupIds e.groupLevel).map (ConsumerEntry.request e)

/-- The configurations of all consumers, or the error of the first that has none. -/
def consumerConfigs (s : Settings) : Except ConfigError (List ConsumerConfig) :=
  s.requests.mapM ConsumerConfig.build

end Settings

end ConsumerGroup
