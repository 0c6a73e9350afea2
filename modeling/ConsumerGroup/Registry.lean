import ConsumerGroup.Engine.Scheduler
import ConsumerGroup.Settings.Validation

/-!
# Registry

The consumers of an application are registered together, by name, and stopped together.  Either all
configurations are in order and all consumers start, or none does.
-/

namespace ConsumerGroup

/-- The registered consumers. -/
structure Registry where
  /-- the members by name, in the order in which they were registered -/
  entries : List (String × Nat) := []
  /-- whether the registry has been shut down -/
  closing : Bool := false
  deriving Repr, DecidableEq, Inhabited

namespace Registry

/-- The names of the registered consumers. -/
def names (r : Registry) : List String := r.entries.map Prod.fst

/-- How many consumers are registered. -/
def length (r : Registry) : Nat := r.entries.length

/-- Whether no consumer is registered. -/
def isEmpty (r : Registry) : Bool := r.entries.isEmpty

/-- Registers a consumer, which starts to run; a registry that was shut down ignores it. -/
def spawn (r : Registry) (member : Member) (e : Engine) : Registry × Engine :=
  if r.closing then (r, e)
  else
    ({ r with entries := r.entries ++ [(member.name, e.members.size)] },
      { e with members := e.members.push member })

/-- Whether each consumer still runs. -/
def health (r : Registry) (e : Engine) : List (String × Bool) :=
  r.entries.map fun (name, m) => (name, (e.members[m]?).any (!·.isOver))

/-- Tells all registered consumers to stop. -/
def signalAll (r : Registry) (e : Engine) : Engine :=
  r.entries.foldl (fun e entry => e.signal entry.2) e

/-- Stops all consumers.  Doing that again changes nothing. -/
def shutdown (r : Registry) (e : Engine) : Registry × Engine :=
  if r.closing then (r, e) else (⟨[], true⟩, r.signalAll e)

/-- Gives the registry up; its consumers stop. -/
def abandon (r : Registry) (e : Engine) : Engine := if r.closing then e else r.signalAll e

/-- Registers the consumers whose topics have a handler. -/
def registerAll {η : Type} (configs : List ConsumerConfig) (handlers : HandlerSet η)
    (routing : Routing) (delayTopics : DelayTopics) (e : Engine) : Registry × Engine :=
  (configs.filter fun c => handlers.contains c.topic).foldl
    (fun (r, e) config =>
      r.spawn { config, delayTopics, cluster := routing.resolve config.topic } e)
    ({}, e)

/-- Registers the consumers of some settings. -/
def ofSettings {η : Type} (s : Settings) (handlers : HandlerSet η) (e : Engine) :
    Except ConfigError (Registry × Engine) :=
  if s.problems.isEmpty then
    match s.consumerConfigs with
    | .ok configs => .ok (registerAll configs handlers s.consumerRouting s.delayTopicTable e)
    | .error error => .error error
  else .error (.invalid (s.problems.map Settings.Problem.message))

end Registry

end ConsumerGroup
