import ConsumerGroup.Proofs.Engine.Publishing
import ConsumerGroup.Proofs.Engine.Service
import ConsumerGroup.Proofs.Redelivery.Hops

/-!
# Consumers that feed themselves

Everybody reads the same topic and publishes failed messages to this topic again.  No session ends,
no claim is given up and no message is dropped.

* `Engine.Steady` — the engines of such a run.
* `Ledger` — where the messages of the topic came from: from outside, or from which handling.
* `Feeds`, `Feeding` — a step of such a run and where a run gets to, with the ledger that is kept.
* `Feeds.turns` — what a step does to the broker.
* `Feeding.readBy`, `Feeding.handed` — groups have one session each, and its claims have claim loops.
* `Feeding.loop_unique`, `Feeding.window`, `Feeding.holds` — a group has one claim loop for a partition,
  which brings what the log of the partition holds, and handles that.
-/

namespace ConsumerGroup

/-- A member reads a topic and publishes failed messages to it again.  A header can carry its limit. -/
structure Member.RedeliversTo (member : Member) (topic : String) : Prop where
  /-- it reads the topic -/
  topic_eq : member.config.topic = topic
  /-- no other topic holds its failed messages back -/
  delayTopics_eq : member.delayTopics = ∅
  /-- counts are read back up to its limit -/
  retryLimit_le : member.config.retryLimit ≤ maxRetryTimes

instance (member : Member) (topic : String) : Decidable (member.RedeliversTo topic) :=
  decidable_of_iff (member.config.topic = topic ∧ member.delayTopics = ∅ ∧
      member.config.retryLimit ≤ maxRetryTimes)
    ⟨fun ⟨ht, hd, hr⟩ => ⟨ht, hd, hr⟩, fun ⟨ht, hd, hr⟩ => ⟨ht, hd, hr⟩⟩

instance : (phase : LoopPhase) → Decidable (∀ env, phase ≠ .parked env)
  | .parked env => .isFalse fun h => absurd rfl (h env)
  | .receiving => .isTrue (by simp)
  | .draining _ => .isTrue (by simp)
  | .ended _ => .isTrue (by simp)

instance (l : ClaimLoop) : Decidable l.IsStopped :=
  inferInstanceAs (Decidable (l.cancelled = true ∨ l.aborted = true ∨
    l.phase ≠ .receiving ∧ ∀ env, l.phase ≠ .parked env))

/-- All claims go on: nothing was ended, closed, stopped or dropped. -/
structure Engine.Steady (topic : String) (e : Engine) : Prop where
  /-- no session has ended or was left -/
  sessions : ∀ s ∈ e.broker.sessions.toList, s.live = true ∧ s.attended = true
  /-- no channel has dropped a message or was closed -/
  channels : ∀ c ∈ e.broker.channels.toList, c.lost = [] ∧ c.fed = true ∧ c.read = true
  /-- no claim loop has stopped -/
  loops : ∀ l ∈ e.loops.toList, ¬ l.IsStopped
  /-- everybody publishes to the topic that everybody reads -/
  members : ∀ member ∈ e.members.toList, member.RedeliversTo topic

instance (e : Engine) (topic : String) : Decidable (e.Steady topic) :=
  decidable_of_iff
    ((∀ s ∈ e.broker.sessions.toList, s.live = true ∧ s.attended = true) ∧
      (∀ c ∈ e.broker.channels.toList, c.lost = [] ∧ c.fed = true ∧ c.read = true) ∧
      (∀ l ∈ e.loops.toList, ¬ l.IsStopped) ∧ ∀ member ∈ e.members.toList, member.RedeliversTo topic)
    ⟨fun ⟨hs, hc, hl, hm⟩ => ⟨hs, hc, hl, hm⟩, fun ⟨hs, hc, hl, hm⟩ => ⟨hs, hc, hl, hm⟩⟩

/-- Where the messages of a topic came from, the latest first. -/
structure Ledger where
  /-- the places of the messages that came in from outside -/
  delivered : List (TopicPartition × Nat) := []
  /-- the places in the first partition of those that were published, and the handlings that did it -/
  published : List (Nat × Nat) := []
  deriving DecidableEq

namespace Ledger

/-- The places of all messages of a topic. -/
def places (topic : String) (k : Ledger) : List (TopicPartition × Nat) :=
  k.delivered ++ k.published.map fun p => (⟨topic, 0⟩, p.1)

/-- A task has gone on, and may have published a message. -/
def task (topic : String) (e e' : Engine) (k : Ledger) : TaskId → Ledger
  | .handling n =>
    if e.broker.size ⟨topic, 0⟩ < e'.broker.size ⟨topic, 0⟩ then
      { k with published := (e.broker.size ⟨topic, 0⟩, n) :: k.published }
    else k
  | _ => k

/-- Something has happened from outside, and a message may have come in. -/
def act (topic : String) (e e' : Engine) (k : Ledger) : Act → Ledger
  | .deliver source _ _ =>
    if source.topic = topic ∧ e.broker.size source < e'.broker.size source then
      { k with delivered := (source, e.broker.size source) :: k.delivered }
    else k
  | _ => k

end Ledger

/-- What may happen next, which task it is that goes on, and what is added to the ledger. -/
inductive Feeds (w : World) (topic : String) (k : Ledger) (e : Engine) :
    Option TaskId → Ledger → Engine → Prop where
  /-- a task goes on -/
  | task {e' : Engine} (t : TaskId) : e.step? w t = some e' →
      Feeds w topic k e (some t) (k.task topic e e' t) e'
  /-- something happens from outside -/
  | act (a : Act) : a.Serves topic e → Feeds w topic k e none (k.act topic e (e.act a) a) (e.act a)
  /-- time passes -/
  | tick (t : Nat) : e.now ≤ t → Feeds w topic k e none k { e with now := t }

/-- Where consumers get to as long as all claims go on. -/
inductive Feeding (w : World) (topic : String) : Ledger → Engine → Prop where
  /-- nothing has happened -/
  | new : Feeding w topic {} {}
  /-- one more step -/
  | step {k k' : Ledger} {e e' : Engine} {t? : Option TaskId} : Feeding w topic k e →
      Feeds w topic k e t? k' e' → e'.Steady topic → Feeding w topic k' e'

variable {w : World} {topic : String} {k k' : Ledger} {e e' : Engine} {t? : Option TaskId}

theorem Feeds.step (h : Feeds w topic k e t? k' e') : Engine.Step w e e' := by
  cases h with
  | task t ht => exact .task t ht
  | act a _ => exact .act a
  | tick t ht => exact .tick t ht

namespace Feeding

theorem service (h : Feeding w topic k e) : Service w topic e := by
  induction h with
  | new => exact .new
  | step _ hstep _ ih =>
    cases hstep with
    | task t ht => exact ih.task t ht
    | act a ha => exact ih.act a ha
    | tick t ht => exact ih.tick t ht

theorem steady (h : Feeding w topic k e) : e.Steady topic := by
  cases h with
  | new => exact ⟨by simp, by simp, by simp, by simp⟩
  | step _ _ hs => exact hs

end Feeding

/-! ## Steady engines -/

namespace Engine.Steady

theorem session (h : e.Steady topic) (s : SessionId) (hs : s < e.broker.sessions.size) :
    (e.broker.session s).live = true ∧ (e.broker.session s).attended = true := by
  rw [Broker.session_eq (Array.getElem?_eq_getElem hs)]
  exact h.sessions _ (Array.mem_toList_iff.2 (Array.getElem_mem hs))

theorem member (h : e.Steady topic) {m : Nat} {member : Member}
    (hm : e.members[m]? = some member) : member.RedeliversTo topic :=
  h.members _ (Array.mem_toList_iff.2 (Array.mem_of_getElem? hm))

theorem not_isStopped (h : e.Steady topic) {i : Nat} {l : ClaimLoop} (hl : e.loops[i]? = some l) :
    ¬ l.IsStopped :=
  h.loops _ (Array.mem_toList_iff.2 (Array.mem_of_getElem? hl))

theorem channel (h : e.Steady topic) {c : ChannelId} (hc : c < e.broker.channels.size) :
    (e.broker.channel c).lost = [] ∧ (e.broker.channel c).fed = true ∧
      (e.broker.channel c).read = true := by
  have hget : e.broker.channel c = e.broker.channels[c] := by
    simp [Broker.channel, hc]
  rw [hget]
  exact h.channels _ (Array.mem_toList_iff.2 (Array.getElem_mem hc))

theorem nothingLost (h : e.Steady topic) (group : String) (source : TopicPartition) :
    e.broker.NothingLost group source := by
  apply Broker.nothingLost_of_all
  rw [List.all_eq_true]
  intro c hc
  simp [(h.channels c hc).1]

/-- Nobody leaves a session. -/
theorem sessions_eq_of_dropSession {b : Broker} {s : SessionId} (h : e.Steady topic)
    (hb : e.broker = b.dropSession s) : e.broker.sessions = b.sessions := by
  rcases hs : b.sessions[s]? with _ | session
  · rw [hb, Broker.dropSession_of_none hs]
  · have hlt := (Array.getElem?_eq_some_iff.1 hs).1
    have hsize : e.broker.sessions.size = b.sessions.size := by
      rw [hb]
      exact (Broker.stays_dropSession b s).sessions_size
    have hattended := (h.session s (hsize ▸ hlt)).2
    rw [hb, Broker.dropSession, Broker.session_modifySession_self] at hattended
    · cases hattended
    · rw [Broker.sessions_foldl_closeReader]
      exact hlt

end Engine.Steady

/-! ## What a step does to the broker -/

/-- From `e` to `e'` the broker has done one turn, and a claim that it has handed out has a claim
loop. -/
def Engine.Turns (topic : String) (e e' : Engine) : Prop :=
  ∃ claim?, Broker.Turn topic e.broker claim? e'.broker ∧
    ∀ claim, claim? = some claim → ∃ (i : Nat) (l : ClaimLoop), e'.loops[i]? = some l ∧
      l.source = claim.source ∧ l.channel = claim.channel

namespace Engine

/-- No claim was handed out. -/
theorem Turns.of_turn (h : Broker.Turn topic e.broker none e'.broker) : e.Turns topic e' :=
  ⟨none, h, nofun⟩

/-- The broker has done nothing. -/
theorem Turns.of_broker_eq (h : e'.broker = e.broker) : e.Turns topic e' :=
  .of_turn (h ▸ .of_eq rfl rfl rfl)

/-- A member goes on. -/
theorem turns_of_stepMember? {m : Nat} (h : e.stepMember? m = some e') (he : e.Steady topic)
    (he' : e'.Steady topic) : e.Turns topic e' := by
  obtain ⟨member, b, loops, phase, events, hm, hstep, hmv⟩ := stepMember?_inv h
  have hdrop : ∀ {s : SessionId}, e'.broker = e.broker.dropSession s → e.Turns topic e' := by
    intro s hb
    refine .of_turn (.stays (hb ▸ Broker.stays_dropSession e.broker s) fun s => ?_)
    rw [Broker.session_congr (he'.sessions_eq_of_dropSession hb)]
  have hbroker := hmv.broker_eq
  cases hstep with
  | joinPanics => exact .of_broker_eq hbroker
  | joins _ hj =>
    rw [(he.member hm).topic_eq] at hj
    exact .of_turn (hbroker ▸ .joins hj)
  | joinFails _ hj =>
    obtain ⟨htopics, hsessions, hchannels⟩ := Broker.join_error hj
    exact .of_turn (hbroker ▸ .of_eq htopics hsessions hchannels)
  | @claims s claim _ _ hn =>
    refine ⟨some claim, hbroker ▸ .hands hn, ?_⟩
    intro _ hsome
    obtain rfl := Option.some.inj hsome
    refine ⟨e.loops.size, member.loopFor m claim, ?_, rfl, rfl⟩
    rw [hmv.loops_eq, Array.getElem?_push, if_pos rfl]
  | @ends s _ _ result _ hn hanswer =>
    have hstays := Broker.stays_nextClaim e.broker s
    rw [hn] at hstays
    refine .of_turn (hbroker ▸ .stays hstays (Broker.pending_nextClaim hn ?_))
    intro claim hclaim
    rw [hclaim] at hanswer
    cases result <;> cases hanswer
  | restarts => exact hdrop hbroker
  | finishes => exact hdrop hbroker
  | retries => exact .of_broker_eq hbroker
  | stops _ hb =>
    rcases hb with rfl | ⟨s, rfl⟩
    · exact .of_broker_eq hbroker
    · exact hdrop hbroker

/-- A claim loop goes on. -/
theorem turns_of_stepLoop? {i : Nat} (h : e.stepLoop? w i = some e') (hs : e.Sound) :
    e.Turns topic e' := by
  obtain ⟨l, l', queue, env?, news, -, -, hgoes⟩ :=
    stepLoop?_inv h (hs.fits i) fun l hl => hs.channel_lt hl
  refine .of_turn (.stays hgoes.broker.stays fun s => ?_)
  rw [Broker.session_congr hgoes.broker.sessions_eq]

/-- A handling goes on. -/
theorem turns_of_stepHandling? {n : Nat} (h : e.stepHandling? w n = some e') (hs : e.Sound) :
    e.Turns topic e' := by
  obtain ⟨t, l, phase?, startedAt, news, -, -, -, hcomes⟩ := stepHandling?_inv h (hs.loop_lt n)
  -- a mark touches neither logs nor sessions nor channels
  have hpublished : ∀ {mark : Option Offset} {b : Broker},
      (b = e.broker ∨ ∃ record, b = (e.broker.publish e.now record).2) →
      e'.broker = mark.elim b (b.mark l.group l.source) → e.Turns topic e' := by
    intro mark b hb hmark
    have hkept : e'.broker.topics = b.topics ∧ e'.broker.sessions = b.sessions ∧
        e'.broker.channels = b.channels := by
      rw [hmark]
      cases mark <;> exact ⟨rfl, rfl, rfl⟩
    obtain ⟨htopics, hsessions, hchannels⟩ := hkept
    rcases hb with rfl | ⟨record, rfl⟩
    · exact .of_turn (.of_eq htopics hsessions hchannels)
    · exact .of_turn (.publish e.broker e.now record htopics hsessions hchannels)
  cases hcomes with
  | waits hh =>
    obtain ⟨b, hb, hmark⟩ := hh.broker
    exact hpublished hb hmark
  | completes _ hh =>
    obtain ⟨b, hb, hmark⟩ := hh.broker
    exact hpublished hb hmark

/-- Something happens from outside. -/
theorem turns_of_act {a : Act} (ha : a.Serves topic e) : e.Turns topic (e.act a) := by
  cases a with
  | createTopic topic' partitions => exact .of_turn (.creates topic' partitions ha)
  | deliver source payload headers =>
    rw [act]
    split
    · rename_i happend
      exact .of_turn (.appends rfl rfl happend rfl rfl)
    · exact .of_broker_eq rfl
  | closeGroup group how =>
    exact .of_turn (.stays (Broker.stays_closeGroup _ group how)
      (Broker.pending_closeGroup _ group how))
  | failNextJoin => exact .of_turn (.of_eq rfl rfl rfl)
  | failNextPublishes => exact .of_turn (.of_eq rfl rfl rfl)
  | finishSession => exact ha.elim
  | offerClaim => exact ha.elim
  | send => exact ha.elim
  | closeFeed => exact ha.elim
  | release n =>
    obtain ⟨handlings, hrelease, -⟩ := e.releaseHandling_inv n
    rw [act, hrelease]
    exact .of_broker_eq rfl
  | _ => exact .of_broker_eq rfl

end Engine

/-- **Turns.**  A step is a turn of the broker, and a claim that is handed out gets a claim loop. -/
theorem Feeds.turns (h : Feeds w topic k e t? k' e') (hs : e.Sound) (he : e.Steady topic)
    (he' : e'.Steady topic) : e.Turns topic e' := by
  cases h with
  | task t ht =>
    cases t with
    | member m => exact Engine.turns_of_stepMember? ht he he'
    | loop i => exact Engine.turns_of_stepLoop? ht hs
    | handling n => exact Engine.turns_of_stepHandling? ht hs
  | act a ha => exact Engine.turns_of_act ha
  | tick t _ => exact .of_broker_eq rfl

/-! ## What always holds -/

namespace Feeding

/-- **One session each.**  Groups have one session each, which is fed by the whole topic. -/
theorem readBy (h : Feeding w topic k e) : e.broker.ReadBy topic := by
  induction h with
  | new =>
    have hnone : ∀ s, (({} : Broker).session s).feeds = ∅ := fun s => by simp [Broker.session]
    exact ⟨by simp, by simp, by simp [hnone], by simp⟩
  | step h hstep hs ih =>
    obtain ⟨claim?, hturn, -⟩ := hstep.turns h.service.sound h.steady hs
    exact ih.turn hturn fun s hlt => (hs.session s hlt).1

/-- **Handed out.**  What feeds a session is a claim that it has to hand out, or one that has a claim
loop. -/
theorem handed (h : Feeding w topic k e) {s : SessionId} {source : TopicPartition} {c : ChannelId}
    (hc : (e.broker.session s).feeds.get? source = some c) :
    ⟨source, c⟩ ∈ (e.broker.session s).pending ∨ ∃ (i : Nat) (l : ClaimLoop),
      e.loops[i]? = some l ∧ l.source = source ∧ l.channel = c := by
  induction h with
  | new => simp [Broker.session] at hc
  | step h hstep hs ih =>
    obtain ⟨claim?, hturn, hclaim⟩ := hstep.turns h.service.sound h.steady hs
    rcases hturn.handed hc with hpending | hnew | ⟨hold, hnot⟩
    · exact Or.inl hpending
    · obtain ⟨i, l, hl, hsource, hchannel⟩ := hclaim _ hnew
      exact Or.inr ⟨i, l, hl, hsource, hchannel⟩
    · obtain ⟨i, l, hl, hsource, hchannel⟩ := (ih hold).resolve_left hnot
      obtain ⟨l', hl', hsame, -⟩ :=
        (Engine.advances_of_step h.service.sound hstep.step).sameClaim hl
      exact Or.inr ⟨i, l', hl', hsame.source_eq.trans hsource, hsame.channel_eq.trans hchannel⟩

theorem serving (h : Feeding w topic k e) (group : String) (p : Partition) :
    e.Serving group ⟨topic, p⟩ :=
  Engine.serving_of_service h.service

/-! ## Claims -/

variable {i : Nat} {l : ClaimLoop}

/-- Claims are on the topic that everybody reads. -/
theorem source_topic (h : Feeding w topic k e) (hl : e.loops[i]? = some l) :
    l.source.topic = topic := by
  obtain ⟨s, -, hfeeds⟩ := (h.serving l.group 0).loops i l hl
  exact h.readBy.topic_eq s l.source l.channel hfeeds

/-- A claim loop redelivers as its member is to. -/
theorem employer (h : Feeding w topic k e) (hl : e.loops[i]? = some l) :
    ∃ member, e.members[l.member]? = some member ∧ l.IsOf member ∧ member.RedeliversTo topic := by
  obtain ⟨member, hm, hof⟩ := h.service.sound.employed i l hl
  exact ⟨member, hm, hof, h.steady.member hm⟩

/-- **One claim each.**  A group has one claim loop for a partition. -/
theorem loop_unique (h : Feeding w topic k e) {j : Nat} {l' : ClaimLoop}
    (hl : e.loops[i]? = some l) (hl' : e.loops[j]? = some l') (hg : l.group = l'.group)
    (hs : l.source = l'.source) : i = j := by
  obtain ⟨s, hgroup, hfeeds⟩ := (h.serving l.group 0).loops i l hl
  obtain ⟨s', hgroup', hfeeds'⟩ := (h.serving l.group 0).loops j l' hl'
  obtain rfl := h.readBy.distinct s (Broker.lt_size_of_feeds hfeeds) s'
    (Broker.lt_size_of_feeds hfeeds') (by rw [hgroup, hgroup', hg])
  by_contra hij
  rw [hs] at hfeeds
  exact h.service.sound.channel_ne hl hl' hij (Option.some.inj (hfeeds.symm.trans hfeeds'))

/-- The claim of a loop is a window on the log, and all of the log below it is settled. -/
theorem window (h : Feeding w topic k e) (hl : e.loops[i]? = some l) :
    ∃ log base, e.broker.log? l.source = some log ∧ IsLog log.toList ∧
      (e.broker.channel l.channel).arrived = log.toList.drop base ∧
      ∀ o < base, e.IsSettled l.group l.source o := by
  have hserving : e.Serving l.group l.source :=
    Engine.serving_of_service (h.source_topic hl ▸ h.service)
  have hlost := h.steady.nothingLost l.group l.source
  obtain ⟨s, hgroup, hfeeds⟩ := hserving.loops i l hl
  obtain ⟨log, base, hlog, hwindow, hbelow⟩ := hserving.broker.covers hlost s l.channel hgroup hfeeds
  obtain ⟨hlive, -⟩ := h.steady.session s (Broker.lt_size_of_feeds hfeeds)
  obtain ⟨-, hfed, hread⟩ := h.steady.channel (h.service.sound.channel_lt hl)
  exact ⟨log, base, hlog, hserving.broker.logged.isLog log hlog, hwindow.complete hlive hfed hread,
    hbelow⟩

/-- Messages come in in order. -/
theorem ordered (h : Feeding w topic k e) (hl : e.loops[i]? = some l) : (e.view i l).Ordered := by
  have hserving : e.Serving l.group l.source :=
    Engine.serving_of_service (h.source_topic hl ▸ h.service)
  obtain ⟨log, base, live, -, hislog, hwindow, -⟩ :=
    hserving.window (h.steady.nothingLost l.group l.source) hl rfl rfl
  obtain ⟨hincreasing, hnonneg⟩ := hwindow.increasing hislog
  exact ⟨hincreasing, hnonneg⟩

/-- What has come in on a claim is in the log of its partition, at the place that is its offset. -/
theorem message?_of_arrived (h : Feeding w topic k e) (hl : e.loops[i]? = some l) {m : Message}
    (hm : m ∈ (e.broker.channel l.channel).arrived) :
    ∃ o : Nat, m.offset = o ∧ e.broker.message? (l.source, o) = some m := by
  obtain ⟨log, base, hlog, hislog, harrived, -⟩ := h.window hl
  rw [harrived] at hm
  obtain ⟨o, ho⟩ := List.mem_iff_getElem?.1 ((List.drop_sublist base log.toList).subset hm)
  refine ⟨o, hislog o m ho, ?_⟩
  rw [Broker.message?, hlog, Option.bind_some, ← Array.getElem?_toList]
  exact ho

/-- **Handled.**  A message that is handled is in the log of the partition, and is for the group. -/
theorem holds (h : Feeding w topic k e) {n : Nat} {t : Handling} (ht : e.handlings[n]? = some t)
    (hl : e.loops[t.loop]? = some l) : ∃ (o : Nat) (m : Message) (fresh : TraceId),
      t.envelope.source = l.source ∧ t.envelope.offset = o ∧
      e.broker.message? (l.source, o) = some m ∧ t.envelope = .ofMessage fresh l.source m ∧
      t.envelope.isAddressedTo l.group = true := by
  obtain ⟨m, hm, ⟨fresh, henv⟩, haddr⟩ :=
    (h.service.reachable hl).comesFrom.handled n t (Engine.handlingOf?_eq_some.2 ⟨ht, rfl⟩)
  obtain ⟨o, ho, hmessage⟩ := h.message?_of_arrived hl hm
  change t.envelope = .ofMessage fresh l.source m at henv
  exact ⟨o, m, fresh, by rw [henv]; rfl, by rw [henv]; exact ho, hmessage, henv, haddr⟩

/-- What is redelivered is published to the topic that everybody reads. -/
theorem planned (h : Feeding w topic k e) {n : Nat} {t : Handling} (ht : e.handlings[n]? = some t)
    (hl : e.loops[t.loop]? = some l) {delay : Nat} {record : Record}
    (hplan : l.redeliverer.plan t.envelope = .publish delay record) :
    t.envelope.retryTimes < l.redeliverer.retryLimit ∧ record.topic = topic ∧
      record.headers = Redeliverer.headersFor t.envelope := by
  obtain ⟨hlt, -, rfl⟩ := Redeliverer.of_plan_eq_publish hplan
  obtain ⟨member, -, hof, hredelivers⟩ := h.employer hl
  obtain ⟨-, -, -, hsource, -⟩ := h.holds ht hl
  refine ⟨hlt, ?_, rfl⟩
  rw [hof.redeliverer_eq, Member.redeliverer, hredelivers.delayTopics_eq, Envelope.topic, hsource,
    h.source_topic hl]
  exact DelayTopics.resolve_empty delay topic

end Feeding

end ConsumerGroup
