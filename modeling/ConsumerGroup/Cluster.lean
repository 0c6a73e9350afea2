import ConsumerGroup.Error
import ConsumerGroup.Message
import ConsumerGroup.Table

/-!
# Clusters and routing

Topics live on clusters.  A routing names the cluster of a topic; a topic without a route, or with a
route to a cluster that is not there, lives on the default cluster.  A routed producer picks the
producer of a record by the same rule.
-/

namespace ConsumerGroup

/-- How to reach a cluster. -/
structure ClusterSpec where
  /-- the addresses to start from -/
  brokers : List String := []
  /-- the name to log in with -/
  username : Option String := none
  /-- the password to log in with -/
  password : Option String := none
  deriving Repr, DecidableEq, Inhabited

/-- The addresses with commas between them. -/
def ClusterSpec.bootstrapServers (c : ClusterSpec) : String := ",".intercalate c.brokers

/-- Which topic lives on which cluster. -/
structure Routing where
  /-- the cluster of the topics without a usable route -/
  fallback : ClusterSpec
  /-- the clusters by name -/
  clusters : Table String ClusterSpec := ∅
  /-- the names of the clusters by topic -/
  routes : Table String String := ∅
  deriving DecidableEq, Inhabited

namespace Routing

/-- The name of the cluster the topic is routed to, if there is one of that name. -/
def clusterName? (r : Routing) (topic : String) : Option String :=
  (r.routes.get? topic).filter r.clusters.contains

/-- The cluster of the topic. -/
def resolve (r : Routing) (topic : String) : ClusterSpec :=
  ((r.clusterName? topic).bind r.clusters.get?).getD r.fallback

end Routing

/-- Which producer serves which topic.  A producer is whatever `π` holds. -/
structure RoutedProducer (π : Type) where
  /-- the producer of the topics without a usable route -/
  fallback : Option π := none
  /-- the producers by cluster -/
  producers : Table String π := ∅
  /-- the names of the clusters by topic -/
  routes : Table String String := ∅

namespace RoutedProducer

variable {π : Type}

/-- Sets the producer of a cluster. -/
def withCluster (r : RoutedProducer π) (name : String) (producer : π) : RoutedProducer π :=
  { r with producers := r.producers.insert name producer }

/-- Routes a topic to a cluster. -/
def withRoute (r : RoutedProducer π) (topic cluster : String) : RoutedProducer π :=
  { r with routes := r.routes.insert topic cluster }

/-- The producer of a topic. -/
def producer? (r : RoutedProducer π) (topic : String) : Option π :=
  match (r.routes.get? topic).bind r.producers.get? with
  | some producer => some producer
  | none => r.fallback

/-- Hands the record to the producer of its topic, in whatever way `send` does that. -/
def publish {m : Type → Type} [Monad m] (r : RoutedProducer π)
    (send : π → Record → m (Except BrokerError Unit)) (record : Record) :
    m (Except BrokerError Unit) :=
  match r.producer? record.topic with
  | some producer => send producer record
  | none => pure (.error (.noProducer record.topic))

end RoutedProducer

end ConsumerGroup
