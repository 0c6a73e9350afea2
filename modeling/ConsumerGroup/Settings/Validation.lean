import ConsumerGroup.Settings.Basic

/-!
# Rules for settings

`Settings.problems` lists everything that is wrong with settings, cluster rules first, then
consumers, then delay topics.
-/

namespace ConsumerGroup

/-- Which of the two lists of clusters is meant. -/
inductive ClusterRole where
  /-- the clusters records are published to -/
  | producer
  /-- the clusters messages are read from -/
  | consumer
  deriving Repr, DecidableEq

/-- The name of the list. -/
def ClusterRole.name : ClusterRole → String
  | producer => "producer"
  | consumer => "consumer"

namespace Settings

/-- Something that is wrong with settings. -/
inductive Problem where
  /-- there are consumers, and no broker to read from by default -/
  | noDefaultBrokers
  /-- a cluster has a blank name -/
  | blankClusterName (role : ClusterRole)
  /-- an earlier cluster has the same name -/
  | duplicateCluster (role : ClusterRole) (name : String)
  /-- a cluster has no broker -/
  | clusterWithoutBrokers (role : ClusterRole) (name : String)
  /-- the consumer at that place of the list has a blank topic -/
  | blankConsumerTopic (index : Nat)
  /-- the level of a consumer stands for no group -/
  | noGroup (topic level : String)
  /-- a delay topic has no delay -/
  | zeroDelay (topic : String)
  /-- a bucket has a blank topic -/
  | blankDelayTopic (seconds : Nat)
  /-- an earlier bucket is as long -/
  | duplicateBucket (seconds : Nat)
  deriving Repr, DecidableEq

/-- The wording. -/
def Problem.message : Problem → String
  | noDefaultBrokers => "no brokers configured for the default consumer cluster"
  | blankClusterName role => role.name ++ " cluster with empty name"
  | duplicateCluster role name => "duplicate " ++ role.name ++ " cluster '" ++ name ++ "'"
  | clusterWithoutBrokers role name => role.name ++ " cluster '" ++ name ++ "' has no brokers"
  | blankConsumerTopic index => "consumers[" ++ Nat.repr index ++ "] has an empty topic"
  | noGroup topic level =>
    "consumer for topic '" ++ topic ++ "' resolves to no group id (level '" ++ level ++ "')"
  | zeroDelay topic => "delay topic '" ++ topic ++ "' has a zero delay"
  | blankDelayTopic seconds => "delay bucket " ++ Nat.repr seconds ++ "s has an empty topic"
  | duplicateBucket seconds => "duplicate delay bucket " ++ Nat.repr seconds ++ "s"

/-- What is wrong with clusters that follow clusters of the names `seen`. -/
def clusterProblems (role : ClusterRole) (seen : List String) : List NamedCluster → List Problem
  | [] => []
  | c :: rest =>
    let blank := Text.isBlankText c.name
    let naming :=
      if blank then [.blankClusterName role]
      else if seen.contains c.name then [.duplicateCluster role c.name]
      else []
    let reach := if c.cluster.brokers.isEmpty then [.clusterWithoutBrokers role c.name] else []
    naming ++ reach ++ clusterProblems role (if blank then seen else c.name :: seen) rest

/-- What is wrong with consumers, the first of which is at place `index` of the list. -/
def consumerProblems (s : Settings) (index : Nat) : List ConsumerEntry → List Problem
  | [] => []
  | e :: rest =>
    let here :=
      if Text.isBlankText e.topic then [.blankConsumerTopic index]
      else if (s.groupIds e.groupLevel).isEmpty then [.noGroup e.topic e.groupLevel]
      else []
    here ++ consumerProblems s (index + 1) rest

/-- What is wrong with delay topics that follow buckets of the lengths `seen`. -/
def delayProblems (seen : List Nat) : List DelayTopicEntry → List Problem
  | [] => []
  | e :: rest =>
    (if e.seconds = 0 then [.zeroDelay e.topic] else [])
      ++ (if Text.isBlankText e.topic then [.blankDelayTopic e.seconds] else [])
      ++ (if seen.contains e.seconds then [.duplicateBucket e.seconds] else [])
      ++ delayProblems (e.seconds :: seen) rest

/-- Everything that is wrong with the settings. -/
def problems (s : Settings) : List Problem :=
  (if s.consumers.isEmpty || !s.consumerRouting.fallback.brokers.isEmpty then []
    else [.noDefaultBrokers])
    ++ clusterProblems .producer [] s.producerClusters
    ++ clusterProblems .consumer [] s.consumerClusters
    ++ consumerProblems s 0 s.consumers
    ++ delayProblems [] s.delayTopics

end Settings

end ConsumerGroup
