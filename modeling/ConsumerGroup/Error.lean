/-!
# Errors

What can go wrong, by cause, with one function each for the wording.
-/

namespace ConsumerGroup

/-- What a broker reports. -/
inductive BrokerError where
  /-- the topic or the partition is not known (yet) -/
  | unknownTopicOrPartition (name : String)
  /-- the cluster cannot be reached -/
  | connection (text : String)
  /-- the membership in the group failed -/
  | session (text : String)
  /-- a record was not taken -/
  | publish (topic reason : String)
  /-- no producer serves the topic -/
  | noProducer (topic : String)
  deriving Repr, DecidableEq, Inhabited

namespace BrokerError

/-- The wording. -/
def message : BrokerError → String
  | unknownTopicOrPartition name => "Unknown topic or partition: " ++ name
  | connection text => "Connection error: " ++ text
  | session text => "Session error: " ++ text
  | publish topic reason => "Publish to " ++ topic ++ " failed: " ++ reason
  | noProducer topic => "No producer available for topic " ++ topic

/-- Whether the topic or the partition is not known. -/
def isUnknownTopic : BrokerError → Bool
  | unknownTopicOrPartition _ => true
  | _ => false

/-- Whether the same call may succeed when it is made again. -/
def isRetriable : BrokerError → Bool
  | publish .. | connection _ | session _ => true
  | _ => false

end BrokerError

/-- Why a settings file cannot be read. -/
inductive ReadFailure where
  /-- there is no such file -/
  | notFound
  /-- the path is none -/
  | invalidInput
  /-- the content is no text -/
  | invalidData
  /-- the path names a directory -/
  | isADirectory
  /-- the path goes through a file -/
  | notADirectory
  deriving Repr, DecidableEq, Inhabited

/-- The name of the failure. -/
def ReadFailure.name : ReadFailure → String
  | notFound => "NotFound"
  | invalidInput => "InvalidInput"
  | invalidData => "InvalidData"
  | isADirectory => "IsADirectory"
  | notADirectory => "NotADirectory"

/-- What is wrong with a configuration. -/
inductive ConfigError where
  /-- redeliveries are wanted, but no delays are given -/
  | missingDelayLadder (topic : String) (retryLimit : Nat)
  /-- the delays do not ascend -/
  | unorderedDelayLadder (topic : String)
  /-- the file is not of the one known format -/
  | unsupportedFormat (extension : String)
  /-- the file cannot be read -/
  | read (path : String) (failure : ReadFailure)
  /-- the content does not describe settings -/
  | parse
  /-- an environment variable is missing -/
  | missingEnv (name : String)
  /-- the settings break rules -/
  | invalid (problems : List String)
  deriving Repr, DecidableEq, Inhabited

/-- The wording. -/
def ConfigError.message : ConfigError → String
  | missingDelayLadder topic retryLimit =>
    "Topic " ++ topic ++ ": retry limit " ++ Nat.repr retryLimit
      ++ " configured without a delay ladder"
  | unorderedDelayLadder topic => "Topic " ++ topic ++ ": delay ladder must be strictly ascending"
  | unsupportedFormat extension => "Unsupported config format: " ++ extension
  | read path failure => "Failed to read config " ++ path ++ ": " ++ failure.name
  | parse => "Failed to parse config"
  | missingEnv name => "Environment variable " ++ name ++ " is not set"
  | invalid problems => "Invalid configuration: " ++ "; ".intercalate problems

/-- Why a handler did not succeed. -/
inductive HandlerFailure where
  /-- it returned an error -/
  | reported (text : String)
  /-- it panicked -/
  | panicked (text : String)
  deriving Repr, DecidableEq, Inhabited

namespace HandlerFailure

/-- The wording. -/
def message : HandlerFailure → String
  | reported text => "Handler error: " ++ text
  | panicked text => "Handler panicked: " ++ text

/-- Whether the handler panicked. -/
def isPanic : HandlerFailure → Bool
  | reported _ => false
  | panicked _ => true

end HandlerFailure

/-- Any error of a consumer or a publisher. -/
inductive ConsumerError where
  /-- the broker reported it -/
  | broker (error : BrokerError)
  /-- the configuration is at fault -/
  | config (error : ConfigError)
  /-- a handler failed -/
  | handler (failure : HandlerFailure)
  /-- a message to publish names no group -/
  | emptyGroup
  deriving Repr, DecidableEq, Inhabited

namespace ConsumerError

/-- The wording. -/
def message : ConsumerError → String
  | broker error => error.message
  | config error => error.message
  | handler failure => failure.message
  | emptyGroup => "Message group must not be empty"

/-- Whether the broker does not know the topic or the partition. -/
def isUnknownTopic : ConsumerError → Bool
  | broker error => error.isUnknownTopic
  | _ => false

end ConsumerError

/-! ## Restarts -/

/-- Why a consumer joins its group again. -/
inductive RestartReason where
  /-- the session ended without an error -/
  | rebalance
  /-- the topic or the partition is not known yet -/
  | unknownTopic
  /-- the session or the attempt to join failed in another way -/
  | sessionError
  deriving Repr, DecidableEq, Inhabited

namespace RestartReason

/-- The reason that an error is. -/
def ofError (e : ConsumerError) : RestartReason :=
  if e.isUnknownTopic then unknownTopic else sessionError

/-- The name under which restarts are counted. -/
def label : RestartReason → String
  | rebalance => "rebalance"
  | unknownTopic => "unknown_topic"
  | sessionError => "session_error"

/-- How many seconds pass before the consumer joins again. -/
def backoffSeconds : RestartReason → Nat
  | unknownTopic => 180
  | rebalance | sessionError => 3

end RestartReason

end ConsumerGroup
