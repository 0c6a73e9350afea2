import ConsumerGroup.Registry
import ConsumerGroup.Proofs.Engine.Turns

/-!
# Registration is all or nothing

Starting up goes step by step: the settings are validated, a configuration is built for each pair of
a consumer and one of its groups, and then the consumers with a handler are started one after the
other.  `Registry.startUp` is written that way, as a computation that can fail and that keeps what it
has started when it does.  It comes to the same as `Registry.ofSettings`, so a failure comes before
the first start.

Main statement: `Registry.registers_all_or_none`.
-/

namespace ConsumerGroup

/-! ## Configurations -/

/-- Why no consumer of the entry can run: redeliveries without delays, or delays that do not
ascend. -/
def ConsumerEntry.fault? (c : ConsumerEntry) : Option ConfigError :=
  if c.retryTimes ≠ 0 ∧ c.delays = [] then some (.missingDelayLadder c.topic c.retryTimes)
  else if c.delays.Pairwise (· < ·) then none
  else some (.unorderedDelayLadder c.topic)

theorem ConsumerEntry.fault?_isSome_iff (c : ConsumerEntry) :
    c.fault?.isSome = true ↔
      (c.retryTimes ≠ 0 ∧ c.delays = []) ∨ ¬ c.delays.Pairwise (· < ·) := by
  rw [fault?]
  split
  · rename_i h
    exact iff_of_true rfl (Or.inl h)
  · rename_i h
    split
    · rename_i hp
      exact iff_of_false Bool.false_ne_true (not_or.2 ⟨h, not_not.2 hp⟩)
    · rename_i hp
      exact iff_of_true rfl (Or.inr hp)

theorem ConsumerConfig.build_of_missing {r : ConsumerRequest} (h : r.retryLimit ≠ 0)
    (hladder : r.ladder.toList = []) :
    build r = .error (.missingDelayLadder r.topic r.retryLimit) := by
  rw [build, dif_neg]
  simp [h, hladder, DelayLadder.isEmpty]

theorem ConsumerConfig.build_of_unordered {r : ConsumerRequest}
    (h : ¬ (r.retryLimit ≠ 0 ∧ r.ladder.toList = []))
    (hladder : ¬ r.ladder.toList.Pairwise (· < ·)) :
    build r = .error (.unorderedDelayLadder r.topic) := by
  have hascends : ¬ r.ladder.isAscending = true :=
    mt (DelayLadder.ascends_iff_pairwise r.ladder.toList).1 hladder
  rw [build, dif_pos, dif_neg hascends]
  simpa [DelayLadder.isEmpty, or_iff_not_imp_left] using h

theorem ConsumerConfig.exists_build {r : ConsumerRequest}
    (h : ¬ (r.retryLimit ≠ 0 ∧ r.ladder.toList = []))
    (hladder : r.ladder.toList.Pairwise (· < ·)) :
    ∃ config, build r = .ok config ∧ config.topic = r.topic ∧ config.groupId = r.groupId := by
  have hascends : r.ladder.isAscending = true :=
    (DelayLadder.ascends_iff_pairwise r.ladder.toList).2 hladder
  rw [build, dif_pos, dif_pos hascends]
  · exact ⟨_, rfl, rfl, rfl⟩
  · simpa [DelayLadder.isEmpty, or_iff_not_imp_left] using h

namespace Settings

/-- What an entry asks for in a group is built unless the entry has a fault. -/
theorem build_request (c : ConsumerEntry) (groupId : String) :
    (∃ error, c.fault? = some error ∧
      ConsumerConfig.build (ConsumerEntry.request c groupId) = .error error) ∨
    (c.fault? = none ∧ ∃ config, ConsumerConfig.build (ConsumerEntry.request c groupId) = .ok config ∧
      config.topic = c.topic ∧ config.groupId = groupId) := by
  rw [ConsumerEntry.fault?]
  split
  · rename_i h
    exact .inl ⟨_, rfl, ConsumerConfig.build_of_missing h.1 h.2⟩
  · rename_i h
    split
    · rename_i hp
      exact .inr ⟨rfl, ConsumerConfig.exists_build h hp⟩
    · rename_i hp
      exact .inl ⟨_, rfl, ConsumerConfig.build_of_unordered h hp⟩

/-- All pairs of a consumer and one of its groups, in order. -/
def pairs (s : Settings) : List (ConsumerEntry × String) :=
  s.consumers.flatMap fun c => (s.groupIds c.groupLevel).map fun groupId => (c, groupId)

theorem requests_eq (s : Settings) :
    s.requests = s.pairs.map fun p => ConsumerEntry.request p.1 p.2 := by
  simp [requests, pairs, List.map_flatMap, Function.comp_def]

/-- Configurations are built for all pairs, in order, or the first fault is the error. -/
theorem mapM_build (l : List (ConsumerEntry × String)) :
    (∃ error, l.findSome? (·.1.fault?) = some error ∧
      (l.map fun p => ConsumerEntry.request p.1 p.2).mapM ConsumerConfig.build = .error error) ∨
    (l.findSome? (·.1.fault?) = none ∧ ∃ configs,
      (l.map fun p => ConsumerEntry.request p.1 p.2).mapM ConsumerConfig.build = .ok configs ∧
      configs.map (fun config => (config.topic, config.groupId)) =
        l.map fun p => (p.1.topic, p.2)) := by
  induction l with
  | nil => exact .inr ⟨rfl, [], rfl, rfl⟩
  | cons p l ih =>
    rw [List.map_cons, List.mapM_cons, List.findSome?_cons]
    rcases build_request p.1 p.2 with ⟨error, hfault, hbuild⟩ | ⟨hfault, config, hbuild, htopic, hgroup⟩
    · exact .inl ⟨error, by rw [hfault], by rw [hbuild]; rfl⟩
    · rw [hfault, hbuild]
      rcases ih with ⟨error, hfirst, hrest⟩ | ⟨hfirst, configs, hrest, hconfigs⟩
      · exact .inl ⟨error, hfirst, by rw [hrest]; rfl⟩
      · refine .inr ⟨hfirst, config :: configs, by rw [hrest]; rfl, ?_⟩
        rw [List.map_cons, List.map_cons, hconfigs, htopic, hgroup]

/-- The configurations of all pairs, in order, or the first fault. -/
theorem consumerConfigs_cases (s : Settings) :
    (∃ error, s.pairs.findSome? (·.1.fault?) = some error ∧ s.consumerConfigs = .error error) ∨
    (s.pairs.findSome? (·.1.fault?) = none ∧ ∃ configs, s.consumerConfigs = .ok configs ∧
      configs.map (fun config => (config.topic, config.groupId)) =
        s.pairs.map fun p => (p.1.topic, p.2)) := by
  rw [consumerConfigs, requests_eq]
  exact mapM_build s.pairs

/-- Why settings cannot be used: all problems that the validation finds, or else the fault of the first
pair that has one. -/
def fault? (s : Settings) : Option ConfigError :=
  if s.problems = [] then s.pairs.findSome? (·.1.fault?)
  else some (.invalid (s.problems.map Problem.message))

theorem fault?_isSome_iff (s : Settings) :
    s.fault?.isSome = true ↔ s.problems ≠ [] ∨ ∃ p ∈ s.pairs,
      (p.1.retryTimes ≠ 0 ∧ p.1.delays = []) ∨ ¬ p.1.delays.Pairwise (· < ·) := by
  rw [fault?]
  split
  · rename_i h
    simp only [List.findSome?_isSome_iff, ConsumerEntry.fault?_isSome_iff, h, ne_eq,
      not_true_eq_false, false_or]
  · rename_i h
    exact iff_of_true rfl (Or.inl h)

end Settings

/-! ## Starting up -/

/-- A part of starting up.  It may fail, and what it has started before stays. -/
abbrev StartUp : Type → Type := ExceptT ConfigError (StateM Engine)

namespace Registry

/-- Starts a consumer. -/
def start (r : Registry) (member : Member) : StartUp Registry :=
  modifyGet fun e => r.spawn member e

/-- Starts the consumers whose topics have a handler, one after the other. -/
def startAll {η : Type} (configs : List ConsumerConfig) (handlers : HandlerSet η)
    (routing : Routing) (delayTopics : DelayTopics) (r : Registry) : StartUp Registry :=
  configs.foldlM (fun r config =>
    if handlers.contains config.topic then
      r.start { config, delayTopics, cluster := routing.resolve config.topic }
    else pure r) r

/-- Starts the consumers of some settings, step by step. -/
def startUp {η : Type} (s : Settings) (handlers : HandlerSet η) : StartUp Registry := do
  unless s.problems.isEmpty do
    throw (.invalid (s.problems.map Settings.Problem.message))
  let configs ← MonadExcept.ofExcept s.consumerConfigs
  startAll configs handlers s.consumerRouting s.delayTopicTable {}

theorem run_startAll {η : Type} (configs : List ConsumerConfig) (handlers : HandlerSet η)
    (routing : Routing) (delayTopics : DelayTopics) (r : Registry) (e : Engine) :
    (startAll configs handlers routing delayTopics r).run.run e =
      let started := (configs.filter fun c => handlers.contains c.topic).foldl
        (fun (r, e) config =>
          r.spawn { config, delayTopics, cluster := routing.resolve config.topic } e) (r, e)
      (.ok started.1, started.2) := by
  induction configs generalizing r e with
  | nil => rfl
  | cons config configs ih =>
    rw [startAll, List.foldlM_cons, List.filter_cons]
    split
    · exact ih _ _
    · exact ih r e

/-- Starting up step by step comes to what `ofSettings` says, and a failure leaves everything as it
was. -/
theorem run_startUp {η : Type} (s : Settings) (handlers : HandlerSet η) (e : Engine) :
    (startUp s handlers).run.run e =
      match ofSettings s handlers e with
      | .ok (r, e') => (.ok r, e')
      | .error error => (.error error, e) := by
  rw [startUp, ofSettings]
  cases hproblems : s.problems.isEmpty with
  | false => rfl
  | true =>
    cases hconfigs : s.consumerConfigs with
    | error error => rfl
    | ok configs => exact run_startAll configs handlers s.consumerRouting s.delayTopicTable {} e

/-! ## What has been started -/

/-- What is registered when consumers are started one after the other: each under its name, with the
numbers of the members in order. -/
theorem foldl_spawn (members : List Member) (r : Registry) (e : Engine) (h : r.closing = false) :
    members.foldl (fun p member => p.1.spawn member p.2) (r, e) =
      ({ r with entries := r.entries ++ (members.map Member.name).zipIdx e.members.size },
        { e with members := e.members ++ members.toArray }) := by
  induction members generalizing r e with
  | nil => simp
  | cons member members ih =>
    have hspawn : r.spawn member e =
        ({ r with entries := r.entries ++ [(member.name, e.members.size)] },
          { e with members := e.members.push member }) := by
      rw [spawn, h]
      rfl
    simp only [List.foldl_cons, hspawn]
    rw [ih ⟨r.entries ++ [(member.name, e.members.size)], r.closing⟩ _ h]
    simp

/-- The member for a configuration. -/
def memberFor (s : Settings) (config : ConsumerConfig) : Member where
  config
  delayTopics := s.delayTopicTable
  cluster := s.consumerRouting.resolve config.topic

theorem registerAll_eq {η : Type} (s : Settings) (configs : List ConsumerConfig)
    (handlers : HandlerSet η) (e : Engine) :
    let members := (configs.filter fun c => handlers.contains c.topic).map (memberFor s)
    registerAll configs handlers s.consumerRouting s.delayTopicTable e =
      (⟨(members.map Member.name).zipIdx e.members.size, false⟩,
        { e with members := e.members ++ members.toArray }) := by
  intro members
  have h := foldl_spawn members {} e rfl
  rw [List.foldl_map] at h
  exact h

/-- Settings have a fault, which is the error, or a configuration for each pair. -/
theorem ofSettings_cases {η : Type} (s : Settings) (handlers : HandlerSet η) (e : Engine) :
    (∃ error, s.fault? = some error ∧ ofSettings s handlers e = .error error) ∨
    (s.fault? = none ∧ ∃ configs,
      configs.map (fun config => (config.topic, config.groupId)) =
        s.pairs.map (fun p => (p.1.topic, p.2)) ∧
      ofSettings s handlers e =
        .ok (registerAll configs handlers s.consumerRouting s.delayTopicTable e)) := by
  rw [ofSettings, Settings.fault?]
  by_cases hproblems : s.problems = []
  · rw [if_pos (List.isEmpty_iff.2 hproblems), if_pos hproblems]
    rcases s.consumerConfigs_cases with ⟨error, hfault, hconfigs⟩ | ⟨hfault, configs, hconfigs, hmap⟩
    · exact .inl ⟨error, hfault, by rw [hconfigs]⟩
    · exact .inr ⟨hfault, configs, hmap, by rw [hconfigs]⟩
  · rw [if_neg (mt List.isEmpty_iff.1 hproblems), if_neg hproblems]
    exact .inl ⟨_, rfl, rfl⟩

/-- Of the configurations of all pairs those of the pairs with a handler are kept. -/
theorem filter_configs {configs : List ConsumerConfig} {pairs : List (ConsumerEntry × String)}
    (h : configs.map (fun config => (config.topic, config.groupId)) =
      pairs.map fun p => (p.1.topic, p.2)) (keep : String → Bool) :
    (configs.filter fun config => keep config.topic).map
        (fun config => (config.topic, config.groupId)) =
      (pairs.filter fun p => keep p.1.topic).map fun p => (p.1.topic, p.2) := by
  have hfilter := congrArg (List.filter fun p : String × String => keep p.1) h
  rwa [List.filter_map, List.filter_map] at hfilter

/-! ## Joins -/

/-- Only members that have been started join. -/
theorem lt_size_of_joining {w : World} {e₀ e : Engine} (h₀ : e₀.IsFresh) (hrun : Engine.Run w e₀ e)
    {m : Nat} (hm : .joining m ∈ e.events) : m < e.members.size := by
  induction hrun with
  | refl =>
    rw [Engine.events, h₀.journal_eq] at hm
    cases hm
  | @tail e₁ e₂ hrun hstep ih =>
    have hs := Engine.sound_of_run h₀.sound hrun
    obtain ⟨news, hnews⟩ := Engine.events_of_step hs hstep
    rw [hnews, List.mem_append] at hm
    -- who joins is there before the step, and so it is after it
    obtain ⟨member, hthere⟩ : ∃ member, e₁.members[m]? = some member := by
      rcases hm with hm | hm
      · obtain ⟨member, -, hthere, -⟩ :=
          Engine.memberTurn_of_stepMember? (Engine.stepMember?_of_news hs hstep hnews hm rfl)
        exact ⟨member, hthere⟩
      · exact ⟨_, Array.getElem?_eq_getElem (ih hm)⟩
    obtain ⟨member', hthere', -⟩ := Engine.memberTurn_of_step hs hstep hthere
    exact (Array.getElem?_eq_some_iff.1 hthere').1

/-! ## All or nothing -/

/-- **Registration is all or nothing.**  For all settings and handlers, whatever runs already:

* it fails exactly when the validation finds a problem, with all problems, or else when a pair of a
  consumer and one of its groups has a fault, with that of the first such pair; handlers have no say
  in this;
* when it fails, going step by step has left everything as it was before, so no member has been
  started; in no run from there does anybody join but members that were there before, unless others
  start some;
* else the names of the registered members are those of all pairs whose topics have a handler, in
  order, and exactly these members have been started. -/
theorem registers_all_or_none {η : Type} (s : Settings) (handlers : HandlerSet η) (e : Engine) :
    (∀ error, ofSettings s handlers e = .error error ↔ s.fault? = some error) ∧
    ((∃ error, ofSettings s handlers e = .error error) ↔
      s.problems ≠ [] ∨ ∃ p ∈ s.pairs,
        (p.1.retryTimes ≠ 0 ∧ p.1.delays = []) ∨ ¬ p.1.delays.Pairwise (· < ·)) ∧
    (∀ error, ofSettings s handlers e = .error error →
      (startUp s handlers).run.run e = (.error error, e) ∧
      ∀ w e₀ e', e₀.IsFresh → Engine.Run w e₀ e → Engine.Run w e e' →
        e'.members.size = e.members.size → ∀ m, .joining m ∈ e'.events → m < e.members.size) ∧
    ∀ r e', ofSettings s handlers e = .ok (r, e') →
      let kept := s.pairs.filter fun p => handlers.contains p.1.topic
      let names := kept.map fun p => p.1.topic ++ "/" ++ p.2
      (startUp s handlers).run.run e = (.ok r, e') ∧
      r.names = names ∧ r.entries = names.zipIdx e.members.size ∧ r.closing = false ∧
        ∃ started : List Member, e' = { e with members := e.members ++ started.toArray } ∧
          started.map (fun member => (member.config.topic, member.config.groupId)) =
            kept.map fun p => (p.1.topic, p.2) := by
  have hrun := run_startUp s handlers e
  rw [← s.fault?_isSome_iff]
  rcases ofSettings_cases s handlers e with ⟨fault, hfault, h⟩ | ⟨hfault, configs, hconfigs, h⟩
  · rw [h] at hrun ⊢
    refine ⟨fun error => by simp [hfault], iff_of_true ⟨_, rfl⟩ (by rw [hfault]; rfl), ?_, ?_⟩
    · intro error herror
      obtain rfl := Except.error.inj herror
      exact ⟨hrun, fun w e₀ e' h₀ hbefore hafter hsize m hm =>
        hsize ▸ lt_size_of_joining h₀ (hbefore.trans hafter) hm⟩
    · intro r e' hr
      cases hr
  · have hkept := filter_configs hconfigs handlers.contains
    generalize hstarted : (configs.filter fun c => handlers.contains c.topic).map (memberFor s) =
      started at *
    have hall := registerAll_eq s configs handlers e
    simp only [hstarted] at hall
    rw [hall] at h
    rw [h] at hrun ⊢
    refine ⟨fun error => by simp [hfault], by simp [hfault], ?_, ?_⟩
    · intro error herror
      cases herror
    · intro r e' hr kept names
      obtain ⟨rfl, rfl⟩ := Prod.mk.inj (Except.ok.inj hr)
      have hpairs : started.map (fun member => (member.config.topic, member.config.groupId)) =
          kept.map fun p => (p.1.topic, p.2) := by
        rw [← hstarted, List.map_map]
        exact hkept
      have hnames : started.map Member.name = names := by
        have h := congrArg (List.map fun p : String × String => p.1 ++ "/" ++ p.2) hpairs
        rwa [List.map_map, List.map_map] at h
      rw [hnames] at hrun ⊢
      exact ⟨hrun, by simp [Registry.names], rfl, rfl, started, rfl, hpairs⟩

/-- The last consumer wants redeliveries without delays.  It has no handler, and yet nothing starts: not
even the consumer before it. -/
theorem registers_all_or_none_lastFault :
    let s : Settings := {
      defaultCluster := { brokers := ["memory:9092"] }
      consumers := [{ topic := "orders" }, { topic := "payments", retryTimes := 3 }]
      groupLevels := [("default", ["svc", "audit"])] }
    let handlers : HandlerSet Unit := Table.ofList [("orders", ())]
    ofSettings s handlers {} = .error (.missingDelayLadder "payments" 3) ∧
      (startUp s handlers).run.run {} = (.error (.missingDelayLadder "payments" 3), {}) ∧
      ∀ w e', Engine.Run w {} e' → e'.members.size = 0 → ∀ m, .joining m ∉ e'.events := by
  intro s handlers
  obtain ⟨hfails, -, hnothing, -⟩ := registers_all_or_none s handlers {}
  have herror : ofSettings s handlers {} = .error (.missingDelayLadder "payments" 3) :=
    (hfails _).2 (by decide +kernel)
  obtain ⟨hsame, hjoins⟩ := hnothing _ herror
  refine ⟨herror, hsame, fun w e' hrun hsize m hm => ?_⟩
  exact Nat.not_lt_zero m (hjoins w {} e' Engine.isFresh_empty .refl hrun hsize m hm)

/-- Without that consumer the other one starts for both groups. -/
example :
    let s : Settings := {
      defaultCluster := { brokers := ["memory:9092"] }
      consumers := [{ topic := "orders" }, { topic := "payments" }]
      groupLevels := [("default", ["svc", "audit"])] }
    (ofSettings s (Table.ofList [("orders", ())]) {}).map (·.1.names) =
      .ok ["orders/svc", "orders/audit"] := by
  decide +kernel

end Registry

end ConsumerGroup
