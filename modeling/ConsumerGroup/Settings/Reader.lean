import ConsumerGroup.Settings.Basic
import ConsumerGroup.Toml.Document

/-!
# Reading settings

Settings from the text of a settings file.  Keys that mean nothing here are passed over; a key that
does must have a value of its type.  A group of fields may be given by name, in a table, or by
position, in an array, except for named clusters, which are always tables.
-/

namespace ConsumerGroup

open Toml (Value Entries)

namespace Settings

/-- The largest number of 32 bits. -/
def maxWord : Nat := 4294967295

/-- The largest number that a settings file can hold. -/
def maxInteger : Nat := 9223372036854775807

/-! ## Values by type -/

/-- A text. -/
def text? : Value → Option String
  | .string s => some s
  | _ => none

/-- A whole number from zero to a limit. -/
def natural? (limit : Nat) : Value → Option Nat
  | .integer (.ofNat n) => if n ≤ limit then some n else none
  | _ => none

/-- The items of an array, or of a list of tables. -/
def items? : Value → Option (List Value)
  | .array items => some items
  | .tables items => some (items.map (.table .headed))
  | _ => none

/-- A list of things of one type. -/
def list? {α : Type} (item : Value → Option α) (v : Value) : Option (List α) :=
  (items? v).bind fun items => items.mapM item

/-- The pairs of a table. -/
def entries? : Value → Option Entries
  | .table _ entries => some entries
  | _ => none

/-- The values of fields, from a table by name or from an array by position. -/
def fields? (names : List String) (v : Value) : Option (List (Option Value)) :=
  match v with
  | .table _ entries => some (names.map (Entries.get? · entries))
  | v => (items? v).map fun items => (List.range names.length).map (items[·]?)

/-- A field that must be there. -/
def required {α : Type} (read : Value → Option α) (v : Option Value) : Option α := v.bind read

/-- A field that may be missing. -/
def optional {α : Type} (read : Value → Option α) : Option Value → Option (Option α)
  | none => some none
  | some v => (read v).map some

/-- A field that has a usual value. -/
def withDefault {α : Type} (usual : α) (read : Value → Option α) (v : Option Value) : Option α :=
  (optional read v).map (·.getD usual)

/-! ## Parts of the settings -/

/-- The names of the fields of a cluster. -/
def clusterFields : List String := ["brokers", "username", "password"]

/-- A cluster from the values of its fields. -/
def clusterOf? : List (Option Value) → Option ClusterSpec
  | [brokers, username, password] => do
    return {
      brokers := ← withDefault [] (list? text?) brokers
      username := ← optional text? username
      password := ← optional text? password }
  | _ => none

/-- A cluster. -/
def cluster? (v : Value) : Option ClusterSpec := (fields? clusterFields v).bind clusterOf?

/-- A cluster with a name. -/
def namedCluster? (v : Value) : Option NamedCluster := do
  let entries ← entries? v
  return {
    name := ← required text? (Entries.get? "name" entries)
    cluster := ← clusterOf? (clusterFields.map (Entries.get? · entries)) }

/-- A route. -/
def route? (v : Value) : Option TopicRoute := do
  match ← fields? ["topic", "cluster_name"] v with
  | [topic, clusterName] =>
    return { topic := ← required text? topic, clusterName := ← required text? clusterName }
  | _ => none

/-- A consumer. -/
def consumer? (v : Value) : Option ConsumerEntry := do
  match ← fields? ["topic", "group_level", "delay_time", "retry_times", "concurrent_nums",
      "drain_timeout_secs"] v with
  | [topic, groupLevel, delays, retryTimes, concurrency, drainSeconds] =>
    return {
      topic := ← required text? topic
      groupLevel := ← withDefault "" text? groupLevel
      delays := ← withDefault [] (list? (natural? maxWord)) delays
      retryTimes := ← withDefault 0 (natural? maxWord) retryTimes
      concurrency := ← withDefault 0 (natural? maxWord) concurrency
      drainSeconds := ← optional (natural? maxInteger) drainSeconds }
  | _ => none

/-- A delay bucket. -/
def delayTopic? (v : Value) : Option DelayTopicEntry := do
  match ← fields? ["seconds", "topic"] v with
  | [seconds, topic] =>
    return { seconds := ← required (natural? maxWord) seconds, topic := ← required text? topic }
  | _ => none

/-- The groups of each level. -/
def groupLevels? (v : Value) : Option (List (String × List String)) := do
  (← entries? v).mapM fun (level, ids) => (list? text? ids).map (level, ·)

/-! ## Settings -/

/-- Settings from the table of a document. -/
def ofEntries? (entries : Entries) : Option Settings := do
  let field (key : String) := Entries.get? key entries
  return {
    defaultCluster := ← withDefault {} cluster? (field "default_cluster")
    producerClusters := ← withDefault [] (list? namedCluster?) (field "producer_clusters")
    consumerClusters := ← withDefault [] (list? namedCluster?) (field "consumer_clusters")
    producerTopics := ← withDefault [] (list? route?) (field "producer_topics")
    consumerTopics := ← withDefault [] (list? route?) (field "consumer_topics")
    consumers := ← withDefault [] (list? consumer?) (field "consumers")
    groupLevels := ← withDefault [] groupLevels? (field "group_levels")
    delayTopics := ← withDefault [] (list? delayTopic?) (field "delay_topics")
    delayTopicStart := ← optional text? (field "delay_topic_prefix") }

/-- Settings from the text of a settings file. -/
def ofText (text : String) : Except ConfigError Settings :=
  match (Toml.parse? text).bind ofEntries? with
  | some s => .ok s
  | none => .error .parse

end Settings

end ConsumerGroup
