import ConsumerGroup.Proofs.Broker.Coverage
import ConsumerGroup.Proofs.Claim.Marks
import ConsumerGroup.Proofs.Engine.Commits
import ConsumerGroup.Proofs.Engine.Scripts

/-!
# A broker that serves a group

* `Service` — the engines that come about when consumers are started at a broker that has just been
  made, and all claims are those of its own sessions.
* `Engine.Serving` — what always holds of them: claim loops and members have their sessions, what is
  committed was marked by a claim loop, and the claims cover what is not settled.
* `Engine.Does` — what a step does to all that; `serving_of_service` puts the steps together.
-/

namespace ConsumerGroup

/-- Something that may happen to a broker that serves topic `topic`: it is not made anew, consumers
begin with a join, and nobody else hands out claims or sends messages. -/
def Act.Serves (topic : String) (e : Engine) : Act → Prop
  | .createTopic topic' _ => topic' = topic → e.broker.topics.contains topic' = false
  | .start member => member.phase = .joining
  | .finishSession .. | .offerClaim .. | .send .. | .closeFeed .. => False
  | _ => True

instance (topic : String) (e : Engine) : (a : Act) → Decidable (a.Serves topic e)
  | .createTopic topic' _ =>
    inferInstanceAs (Decidable (topic' = topic → e.broker.topics.contains topic' = false))
  | .start member => inferInstanceAs (Decidable (member.phase = .joining))
  | .finishSession .. | .offerClaim .. | .send .. | .closeFeed .. => inferInstanceAs (Decidable False)
  | .deliver .. | .closeGroup .. | .failNextJoin _ | .failNextPublishes _ | .script _ | .panicMarks _
  | .panicJoins _ | .release _ | .signal _ => inferInstanceAs (Decidable True)

/-- The engines that come about at a broker that serves topic `topic`. -/
inductive Service (w : World) (topic : String) : Engine → Prop where
  /-- nothing has happened -/
  | new : Service w topic {}
  /-- a task goes on -/
  | task {e e' : Engine} (t : TaskId) : Service w topic e → e.step? w t = some e' → Service w topic e'
  /-- something happens from outside -/
  | act {e : Engine} (a : Act) : Service w topic e → a.Serves topic e → Service w topic (e.act a)
  /-- time passes -/
  | tick {e : Engine} (t : Nat) : Service w topic e → e.now ≤ t → Service w topic { e with now := t }

variable {w : World} {topic group : String} {source : TopicPartition} {e e' : Engine}

theorem Service.run (h : Service w topic e) : Engine.Run w {} e := by
  induction h with
  | new => exact .refl
  | task t _ ht ih => exact ih.tail (.task t ht)
  | act a _ _ ih => exact ih.tail (.act a)
  | tick t _ ht ih => exact ih.tail (.tick t ht)

/-- A reader that acts lets nothing come in. -/
theorem Broker.ReadTo.stays {b b' : Broker} {c : ChannelId} {queue : List Message}
    (h : b.ReadTo b' c queue) : b.Stays b' where
  topics_eq := h.topics_eq
  sessions_size := congrArg Array.size h.sessions_eq
  session s := session_congr h.sessions_eq s ▸ .refl _
  channels_size := h.size_eq
  channel c' := by
    by_cases hc : c' = c
    · subst hc
      exact ⟨h.arrived_eq, h.lost_eq, fun hf => h.fed_eq ▸ hf, h.read_of⟩
    · exact h.channel_ne c' hc ▸ .refl _

theorem Service.sound (h : Service w topic e) : e.Sound :=
  Engine.sound_of_run Engine.isFresh_empty.sound h.run

theorem Service.reachable (h : Service w topic e) {i : Nat} {l : ClaimLoop}
    (hl : e.loops[i]? = some l) : ClaimView.Reachable w i (e.view i l) :=
  Engine.reachable_of_run Engine.isFresh_empty h.run hl

/-! ## Scripts -/

/-- One line of a script may happen to a broker that serves topic `topic`. -/
def Engine.Happening.Serves (topic : String) (e : Engine) : Engine.Happening → Prop
  | .act a => a.Serves topic e
  | _ => True

instance (topic : String) (e : Engine) : (line : Engine.Happening) → Decidable (line.Serves topic e)
  | .act a => inferInstanceAs (Decidable (a.Serves topic e))
  | .task _ | .pass _ => inferInstanceAs (Decidable True)

/-- So may all lines of a script, one after the other. -/
def Engine.AllServe (w : World) (topic : String) (e : Engine) : List Engine.Happening → Prop
  | [] => True
  | line :: script => line.Serves topic e ∧ (Engine.happen w e line).AllServe w topic script

instance decidableAllServe (w : World) (topic : String) :
    (script : List Engine.Happening) → (e : Engine) → Decidable (e.AllServe w topic script)
  | [], _ => inferInstanceAs (Decidable True)
  | line :: script, e =>
    haveI := decidableAllServe w topic script (Engine.happen w e line)
    inferInstanceAs (Decidable (line.Serves topic e ∧ _))

/-- A script leads from such an engine to such an engine. -/
theorem Service.play (h : Service w topic e) {script : List Engine.Happening}
    (hs : e.AllServe w topic script) : Service w topic (Engine.play w e script) := by
  induction script generalizing e with
  | nil => exact h
  | cons line script ih =>
    refine ih ?_ hs.2
    cases line with
    | task t =>
      rw [Engine.happen]
      rcases ht : e.step? w t with _ | e'
      · exact h
      · exact h.task t ht
    | act a => exact h.act a hs.1
    | pass millis => exact h.tick _ (Nat.le_add_right _ _)

namespace Engine

/-! ## Claims stay what they are -/

/-- The message at offset `o` of a partition is settled by some claim of a group on it. -/
def IsSettled (e : Engine) (group : String) (source : TopicPartition) (o : Nat) : Prop :=
  ∃ (i : Nat) (l : ClaimLoop), e.loops[i]? = some l ∧ l.group = group ∧ l.source = source ∧
    Settled i e.events o

/-- Claims stay what they are, and the journal keeps what it tells. -/
theorem Advances.sameClaim (h : Advances w e e') {i : Nat} {l : ClaimLoop} (hl : e.loops[i]? = some l) :
    ∃ l', e'.loops[i]? = some l' ∧ ClaimView.SameClaim l l' ∧ e.events <:+ e'.events := by
  obtain ⟨l', hl', hmoves⟩ := h.moves i l hl
  refine ⟨l', hl', ?_⟩
  have hall : ∀ {v v' : ClaimView}, Relation.ReflTransGen (ClaimView.Move w i) v v' →
      ClaimView.SameClaim v.loop v'.loop ∧ v.events <:+ v'.events := by
    intro v v' hmoves
    induction hmoves with
    | refl => exact ⟨.refl _, List.suffix_refl _⟩
    | tail _ hmove ih => exact ⟨ih.1.trans hmove.sameClaim, ih.2.trans hmove.events_suffix⟩
  exact hall hmoves

theorem IsSettled.advances {o : Nat} (h : e.IsSettled group source o) (ha : Advances w e e') :
    e'.IsSettled group source o := by
  obtain ⟨i, l, hl, rfl, rfl, hs⟩ := h
  obtain ⟨l', hl', hsame, hsuffix⟩ := ha.sameClaim hl
  exact ⟨i, l', hl', hsame.group_eq, hsame.source_eq, hs.mono fun event he => hsuffix.subset he⟩

/-! ## What always holds -/

/-- What always holds of an engine whose broker serves a group on a partition. -/
structure Serving (group : String) (source : TopicPartition) (e : Engine) : Prop where
  /-- the claims of the group cover what is not settled -/
  broker : e.broker.Serves group source (e.IsSettled group source)
  /-- each claim loop reads for the group of its session, from a channel that this feeds -/
  loops : ∀ (i : Nat) (l : ClaimLoop), e.loops[i]? = some l →
    ∃ s, (e.broker.session s).group = l.group ∧
      (e.broker.session s).feeds.get? l.source = some l.channel
  /-- each member asks a session of its group -/
  members : ∀ (m : Nat) (member : Member) (s : SessionId), e.members[m]? = some member →
    member.phase = .consuming s → s < e.broker.sessions.size ∧
      (e.broker.session s).group = member.config.groupId
  /-- what is committed was marked -/
  marked : ∀ o, e.broker.committed.get? (group, source) = some o → ∃ (i : Nat) (l : ClaimLoop),
    e.loops[i]? = some l ∧ l.group = group ∧ l.source = source ∧ .marked i o ∈ e.events

/-- The claim of a loop is a window on the log. -/
theorem Serving.window (h : e.Serving group source) (hlost : e.broker.NothingLost group source)
    {i : Nat} {l : ClaimLoop} (hl : e.loops[i]? = some l) (hg : l.group = group) (hs : l.source = source) :
    ∃ log base live, e.broker.log? source = some log ∧ IsLog log.toList ∧
      (e.broker.channel l.channel).Window log.toList base live ∧
      ∀ o < base, e.IsSettled group source o := by
  obtain ⟨s, hsession, hfeeds⟩ := h.loops i l hl
  obtain ⟨log, base, hlog, hwindow, hbelow⟩ :=
    h.broker.covers hlost s l.channel (hsession.trans hg) (hs ▸ hfeeds)
  exact ⟨log, base, _, hlog, h.broker.logged.isLog log hlog, hwindow, hbelow⟩

/-- **Below a mark** all is settled, and no mark lies beyond the log. -/
theorem Serving.settled_of_marked (h : e.Serving group source)
    (hlost : e.broker.NothingLost group source) {i : Nat} {l : ClaimLoop} (hl : e.loops[i]? = some l)
    (hg : l.group = group) (hs : l.source = source) (hr : ClaimView.Reachable w i (e.view i l))
    {o : Offset} (ho : .marked i o ∈ e.events) :
    (∀ log, e.broker.log? source = some log → o ≤ log.size) ∧
      ∀ k : Nat, (k : Offset) < o → e.IsSettled group source k := by
  obtain ⟨log, base, live, hlog, hislog, hwindow, hbelow⟩ := h.window hlost hl hg hs
  obtain ⟨hincreasing, hnonneg⟩ := hwindow.increasing hislog
  have hordered : (e.view i l).Ordered := ⟨hincreasing, hnonneg⟩
  have hle := (hr.safe hordered).le_low o ho
  have hnext := hr.exact.low_le_next
  rw [Offset.next] at hnext
  have hhigh := hr.high_arrived
  rw [arrived_view] at hhigh
  refine ⟨?_, ?_⟩
  · intro log' hlog'
    obtain rfl := Option.some.inj (hlog.symm.trans hlog')
    rcases hhigh with hhigh | ⟨m, hm, hoff⟩
    · have := Int.natCast_nonneg log.size
      lia
    · have hmem := (hwindow.comes.sublist.trans (List.drop_sublist _ _)).subset hm
      obtain ⟨j, hj⟩ := List.mem_iff_getElem?.1 hmem
      obtain ⟨hlt, -⟩ := List.getElem?_eq_some_iff.1 hj
      rw [Array.length_toList] at hlt
      have := hislog j m hj
      lia
  · intro k hk
    by_cases hbase : k < base
    · exact hbelow k hbase
    · rcases hhigh with hhigh | ⟨m, hm, hoff⟩
      · have := Int.natCast_nonneg k
        lia
      · obtain ⟨m', hm', hk', -⟩ := hwindow.mem_of_le hislog (Nat.le_of_not_lt hbase) hm (by lia)
        have hsettled := hr.settled_of_lt_low hordered hm' (by lia)
        rw [hk'] at hsettled
        exact ⟨i, l, hl, hg, hs, hsettled⟩

/-! ## What a step does -/

/-- Member number `m` joins `group` in its step from `e` to `e'`, and that opens session `s`. -/
structure Joins (e : Engine) (m : Nat) (group : String) (s : SessionId) (e' : Engine) : Prop where
  /-- it was to join -/
  joining : ∃ member, e.members[m]? = some member ∧ member.phase = .joining ∧
    member.config.groupId = group
  /-- the session is new -/
  session_eq : s = e.broker.sessions.size
  /-- and the only one that is -/
  size_eq : e'.broker.sessions.size = e.broker.sessions.size + 1
  /-- it is one of the group -/
  group_eq : (e'.broker.session s).group = group

theorem Joins.lt_size {m : Nat} {s : SessionId} (h : e.Joins m group s e') :
    s < e'.broker.sessions.size := by
  rw [h.size_eq, h.session_eq]
  exact Nat.lt_succ_self _

/-- What a step does to all that, apart from what it does to claims. -/
structure Does (source : TopicPartition) (e e' : Engine) : Prop where
  /-- the broker goes on to serve the partition -/
  broker : Broker.Change source e.broker e'.broker
  /-- a new claim loop has a session -/
  loops : ∀ (i : Nat) (l : ClaimLoop), e.loops[i]? = none → e'.loops[i]? = some l →
    ∃ s, (e'.broker.session s).group = l.group ∧
      (e'.broker.session s).feeds.get? l.source = some l.channel
  /-- a member that asks a session did so before, or has just joined -/
  members : ∀ (m : Nat) (member : Member) (s : SessionId), e'.members[m]? = some member →
    member.phase = .consuming s →
      (∃ member', e.members[m]? = some member' ∧ member'.phase = .consuming s ∧
        member'.config = member.config) ∨
      e.Joins m member.config.groupId s e'

/-- Loops and members stay. -/
theorem Does.of_eq (hb : Broker.Change source e.broker e'.broker) (hl : e'.loops = e.loops)
    (hm : e'.members = e.members) : Does source e e' where
  broker := hb
  loops i l hnone hl' := by
    rw [hl, hnone] at hl'
    cases hl'
  members m member s hm' hp := Or.inl ⟨member, hm ▸ hm', hp, rfl⟩

theorem eq_none_of_size_eq {xs ys : Array ClaimLoop} (h : ys.size = xs.size) {i : Nat}
    (hx : xs[i]? = none) : ys[i]? = none := by
  rw [Array.getElem?_eq_none_iff] at hx ⊢
  exact h ▸ hx

/-- What becomes of members when one of them goes on. -/
theorem members_of_moves {m : Nat} {member : Member} {b : Broker} {loops : Array ClaimLoop}
    {phase : MemberPhase} {news : List Event} (hm : e.members[m]? = some member)
    (hmv : e.Moves m member b loops phase news e')
    (hphase : ∀ s, phase = .consuming s → member.phase = .consuming s ∨
      e.Joins m member.config.groupId s e')
    (m' : Nat) (member' : Member) (s : SessionId) (hm' : e'.members[m']? = some member')
    (hp : member'.phase = .consuming s) :
    (∃ member'', e.members[m']? = some member'' ∧ member''.phase = .consuming s ∧
      member''.config = member'.config) ∨
    e.Joins m' member'.config.groupId s e' := by
  obtain ⟨hlt, -⟩ := Array.getElem?_eq_some_iff.1 hm
  rw [hmv.members_eq, Array.getElem?_setIfInBounds] at hm'
  split at hm'
  · rename_i heq
    subst heq
    obtain rfl := Option.some.inj hm'
    exact (hphase s hp).imp_left fun hold => ⟨member, hm, hold, rfl⟩
  · exact Or.inl ⟨member', hm', hp, rfl⟩

/-- A member goes on, and gets no claim. -/
theorem does_of_moves {m : Nat} {member : Member} {b : Broker} {loops : Array ClaimLoop}
    {phase : MemberPhase} {news : List Event} (hm : e.members[m]? = some member)
    (hmv : e.Moves m member b loops phase news e') (hb : Broker.Change source e.broker b)
    (hsize : loops.size = e.loops.size)
    (hphase : ∀ s, phase = .consuming s → member.phase = .consuming s ∨
      e.Joins m member.config.groupId s e') :
    Does source e e' where
  broker := hmv.broker_eq ▸ hb
  loops i l hnone hl := by
    rw [hmv.loops_eq, eq_none_of_size_eq hsize hnone] at hl
    cases hl
  members := members_of_moves hm hmv hphase

/-- A member that asks a session of its group is handed a claim of it. -/
theorem does_of_claims {m : Nat} {member : Member} {b : Broker} {s : SessionId} {claim : Claim}
    (h : e.Serving group source) (hm : e.members[m]? = some member)
    (hp : member.phase = .consuming s) (hn : e.broker.nextClaim s = (.claim claim, b))
    (hmv : e.Moves m member b (e.loops.push (member.loopFor m claim)) (.consuming s)
      [.claimed e.loops.size] e') : Does source e e' where
  broker := by
    have hstays := Broker.stays_nextClaim e.broker s
    rw [hn] at hstays
    exact hmv.broker_eq ▸ .stays hstays
  loops i l hnone hl := by
    rw [hmv.loops_eq, Array.getElem?_push] at hl
    split at hl
    · obtain rfl := Option.some.inj hl
      have hstays := Broker.stays_nextClaim e.broker s
      obtain ⟨rest, hpending, -⟩ := Broker.pending_of_nextClaim hn
      rw [hn] at hstays
      refine ⟨s, ?_, ?_⟩
      · rw [hmv.broker_eq, (hstays.session s).group_eq]
        exact (h.members m member s hm hp).2
      · rw [hmv.broker_eq, (hstays.session s).feeds_eq]
        exact h.broker.wired.pending s claim (hpending ▸ List.mem_cons_self)
    · rw [hnone] at hl
      cases hl
  members := members_of_moves hm hmv fun s' hs => Or.inl (hp.trans hs)

theorem does_of_memberStep {m : Nat} {member : Member} {b : Broker} {loops : Array ClaimLoop}
    {phase : MemberPhase} {news : List Event} (h : e.Serving group source)
    (hm : e.members[m]? = some member) (hstep : e.MemberStep m member b loops phase news)
    (hmv : e.Moves m member b loops phase news e') : Does source e e' := by
  have hsize : ∀ f, (e.modifyLoopsOf m f).loops.size = e.loops.size := fun f => Array.size_map
  cases hstep with
  | joinPanics => exact does_of_moves hm hmv (.stays (.refl _)) rfl nofun
  | joins hp hj =>
    obtain ⟨heq, hsize, hgroup⟩ := Broker.session_of_join hj
    apply does_of_moves hm hmv (.join hj) rfl
    intro s hs
    obtain rfl := MemberPhase.consuming.inj hs
    rw [← hmv.broker_eq] at hsize hgroup
    exact Or.inr ⟨⟨member, hm, hp, rfl⟩, heq, hsize, hgroup⟩
  | joinFails _ hj => exact does_of_moves hm hmv (.stays (Broker.stays_of_join hj)) rfl nofun
  | claims hp hn => exact does_of_claims h hm hp hn hmv
  | @ends s _ _ _ _ hn =>
    have hstays := Broker.stays_nextClaim e.broker s
    rw [hn] at hstays
    exact does_of_moves hm hmv (.stays hstays) (hsize _) nofun
  | restarts => exact does_of_moves hm hmv (.stays (Broker.stays_dropSession _ _)) rfl nofun
  | finishes => exact does_of_moves hm hmv (.stays (Broker.stays_dropSession _ _)) rfl nofun
  | retries => exact does_of_moves hm hmv (.stays (.refl _)) rfl nofun
  | stops _ hb =>
    rcases hb with rfl | ⟨s, rfl⟩
    · exact does_of_moves hm hmv (.stays (.refl _)) (hsize _) nofun
    · exact does_of_moves hm hmv (.stays (Broker.stays_dropSession _ _)) (hsize _) nofun

/-- A claim loop goes on. -/
theorem does_of_goes {i : Nat} {l l' : ClaimLoop} {queue : List Message} {env? : Option Envelope}
    {news : List Event} (hgoes : e.Goes i l l' queue env? news e') : Does source e e' where
  broker := .stays hgoes.broker.stays
  loops j l'' hnone hl' := by
    have hsize : e'.loops.size = e.loops.size := by rw [hgoes.loops_eq, Array.size_setIfInBounds]
    rw [eq_none_of_size_eq hsize hnone] at hl'
    cases hl'
  members m member s hm hp := Or.inl ⟨member, hgoes.members_eq ▸ hm, hp, rfl⟩

/-- A handling goes on. -/
theorem does_of_handles {n : Nat} {t' : Handling} {l l' : ClaimLoop} {mark : Option Offset}
    {news : List Event} (h : e.Serving group source) (hh : e.Handles n t' l l' mark news e') :
    Does source e e' := by
  obtain ⟨b, hb, heq⟩ := hh.broker
  have hmarked : b.Stays e'.broker := by
    rw [heq]
    cases mark with
    | none => exact .refl b
    | some o => exact Broker.stays_mark b _ _ o
  refine ⟨?_, ?_, fun m member s hm hp => Or.inl ⟨member, hh.members_eq ▸ hm, hp, rfl⟩⟩
  · rcases hb with rfl | ⟨record, rfl⟩
    · exact .stays hmarked
    · rcases h.broker.wired.publish_inv e.now record with hstays | ⟨m, happends⟩
      · exact .stays (hstays.trans hmarked)
      · exact .appends happends hmarked
  · intro j l'' hnone hl'
    have hsize : e'.loops.size = e.loops.size := by rw [hh.loops_eq, Array.size_setIfInBounds]
    rw [eq_none_of_size_eq hsize hnone] at hl'
    cases hl'

/-- Something happens from outside. -/
theorem does_of_act (h : e.Serving group source) (a : Act) (ha : a.Serves source.topic e) :
    Does source e (e.act a) := by
  have hstays : ∀ {b}, e.broker.Stays b → Does source e { e with broker := b } :=
    fun hb => .of_eq (.stays hb) rfl rfl
  cases a with
  | createTopic topic partitions => exact .of_eq (.creates topic partitions ha) rfl rfl
  | deliver source' payload headers =>
    unfold act
    dsimp only
    split
    · rename_i happend
      obtain ⟨_, -, -, happends⟩ := h.broker.wired.append_inv happend
      exact .of_eq (.appends happends (.refl _)) rfl rfl
    · exact hstays (.refl _)
  | closeGroup group' how => exact hstays (Broker.stays_closeGroup _ group' how)
  | failNextJoin error => exact hstays (.of_eq rfl rfl rfl)
  | failNextPublishes n => exact hstays (.of_eq rfl rfl rfl)
  | finishSession => exact ha.elim
  | offerClaim => exact ha.elim
  | send => exact ha.elim
  | closeFeed => exact ha.elim
  | script => exact .of_eq (.stays (.refl _)) rfl rfl
  | panicMarks => exact .of_eq (.stays (.refl _)) rfl rfl
  | panicJoins => exact .of_eq (.stays (.refl _)) rfl rfl
  | release n =>
    obtain ⟨handlings, hrelease, -⟩ := e.releaseHandling_inv n
    rw [act, hrelease]
    exact .of_eq (.stays (.refl _)) rfl rfl
  | start member =>
    refine ⟨.stays (.refl _), ?_, ?_⟩
    · intro i l hnone hl
      cases hnone.symm.trans hl
    · intro m member' s hm hp
      change (e.members.push member)[m]? = some member' at hm
      rw [Array.getElem?_push] at hm
      split at hm
      · obtain rfl := Option.some.inj hm
        cases hp.symm.trans ha
      · exact Or.inl ⟨member', hm, hp, rfl⟩
  | signal m =>
    refine ⟨.stays (.refl _), ?_, ?_⟩
    · intro i l hnone hl
      cases hnone.symm.trans hl
    · intro m' member s hm hp
      change (e.members.modify m ({ · with signalled := true }))[m']? = some member at hm
      rw [Array.getElem?_modify] at hm
      split at hm
      · obtain ⟨member', hm', rfl⟩ := Option.map_eq_some_iff.1 hm
        exact Or.inl ⟨member', hm', hp, rfl⟩
      · exact Or.inl ⟨member, hm, hp, rfl⟩

/-- A task goes on. -/
theorem does_of_task (hsound : e.Sound) (h : e.Serving group source) {t : TaskId}
    (ht : e.step? w t = some e') : Does source e e' := by
  cases t with
  | member m =>
    obtain ⟨member, b, loops, phase, news, hm, hstep, hmv⟩ := stepMember?_inv ht
    exact does_of_memberStep h hm hstep hmv
  | loop i =>
    obtain ⟨l, l', queue, env?, news, -, -, hgoes⟩ :=
      stepLoop?_inv ht (hsound.fits i) fun l hl => hsound.channel_lt hl
    exact does_of_goes hgoes
  | handling n =>
    obtain ⟨t, l, phase?, startedAt, news, -, -, -, hcomes⟩ := stepHandling?_inv ht (hsound.loop_lt n)
    cases hcomes with
    | waits hh => exact does_of_handles h hh
    | completes _ hh => exact does_of_handles h hh

/-! ## Putting the steps together -/

/-- What is committed is marked by a claim loop, and all below is settled. -/
theorem Serving.markedDone (h : e.Serving group source) (hreach : ∀ (i : Nat) (l : ClaimLoop),
    e.loops[i]? = some l → ClaimView.Reachable w i (e.view i l))
    (hlost : e.broker.NothingLost group source) :
    e.broker.MarkedDone group source (e.IsSettled group source) := by
  intro o ho
  obtain ⟨i, l, hl, hg, hs, hmarked⟩ := h.marked o ho
  exact h.settled_of_marked hlost hl hg hs (hreach i l hl) hmarked

theorem Serving.step (h : e.Serving group source) (hreach : ∀ (i : Nat) (l : ClaimLoop),
    e.loops[i]? = some l → ClaimView.Reachable w i (e.view i l))
    (hdoes : Does source e e') (hcommits : e.Commits e') (hadv : Advances w e e') :
    e'.Serving group source where
  broker := (hdoes.broker.serves (h.markedDone hreach) h.broker).mono fun _ ho => ho.advances hadv
  loops i l' hl' := by
    rcases hl : e.loops[i]? with _ | l
    · exact hdoes.loops i l' hl hl'
    · obtain ⟨l'', hl'', hsame, -⟩ := hadv.sameClaim hl
      obtain rfl := Option.some.inj (hl'.symm.trans hl'')
      obtain ⟨s, hg, hf⟩ := h.loops i l hl
      have hs := Broker.lt_size_of_feeds hf
      refine ⟨s, ?_, ?_⟩
      · rw [hdoes.broker.sessions.group_eq s hs, hg, hsame.group_eq]
      · rw [hdoes.broker.sessions.feeds_eq s hs, hsame.source_eq, hf, hsame.channel_eq]
  members m member s hm hp := by
    rcases hdoes.members m member s hm hp with ⟨member', hm', hp', hconfig⟩ | hnew
    · obtain ⟨hs, hg⟩ := h.members m member' s hm' hp'
      refine ⟨Nat.lt_of_lt_of_le hs hdoes.broker.sessions.size_le, ?_⟩
      rw [hdoes.broker.sessions.group_eq s hs, hg, hconfig]
    · exact ⟨hnew.lt_size, hnew.group_eq⟩
  marked o ho := by
    have hkept : ∀ {i : Nat} {l : ClaimLoop}, e.loops[i]? = some l → l.group = group →
        l.source = source → .marked i o ∈ e'.events → ∃ (i : Nat) (l : ClaimLoop),
          e'.loops[i]? = some l ∧ l.group = group ∧ l.source = source ∧ .marked i o ∈ e'.events := by
      intro i l hl hg hs hmarked
      obtain ⟨l', hl', hsame, -⟩ := hadv.sameClaim hl
      exact ⟨i, l', hl', hsame.group_eq.trans hg, hsame.source_eq.trans hs, hmarked⟩
    have hold : e.broker.committed.get? (group, source) = some o → ∃ (i : Nat) (l : ClaimLoop),
        e'.loops[i]? = some l ∧ l.group = group ∧ l.source = source ∧ .marked i o ∈ e'.events := by
      intro ho
      obtain ⟨i, l, hl, hg, hs, hmarked⟩ := h.marked o ho
      obtain ⟨-, -, -, hsuffix⟩ := hadv.sameClaim hl
      exact hkept hl hg hs (hsuffix.subset hmarked)
    cases hcommits with
    | nothing _ _ hc =>
      rw [hc.committed_eq, Option.elim_none] at ho
      exact hold ho
    | @marks i l o' _ hl hevents _ hc =>
      rw [hc.committed_eq, Option.elim_some] at ho
      by_cases hkey : (group, source) = (l.group, l.source)
      · rw [hkey, Table.get?_insert_self] at ho
        obtain rfl := Option.some.inj ho
        obtain ⟨rfl, rfl⟩ := Prod.mk.inj hkey
        exact hkept hl rfl rfl (hevents ▸ List.mem_cons_self)
      · rw [Table.get?_insert_of_ne _ hkey] at ho
        exact hold ho

/-- Nobody has joined a broker that has just been made. -/
theorem serving_empty : ({} : Engine).Serving group source where
  broker := ⟨Broker.wired_empty, Broker.logged_empty source,
    fun _ s c _ hc => absurd hc (Broker.feeds_empty s source c)⟩
  loops := by simp
  members := by simp
  marked := nofun

/-- **Service.**  What always holds holds at a broker that serves a topic. -/
theorem serving_of_service (h : Service w source.topic e) : e.Serving group source := by
  have hstep : ∀ {e e'}, Service w source.topic e → e.Serving group source → Does source e e' →
      Step w e e' → e'.Serving group source := fun h ih hdoes hstep =>
    ih.step (fun _ _ => h.reachable) hdoes (commits_of_step h.sound hstep)
      (advances_of_step h.sound hstep)
  induction h with
  | new => exact serving_empty
  | task t h ht ih => exact hstep h ih (does_of_task h.sound ih ht) (.task t ht)
  | act a h ha ih => exact hstep h ih (does_of_act ih a ha) (.act a)
  | tick t h ht ih => exact hstep h ih (.of_eq (.stays (.refl _)) rfl rfl) (.tick t ht)

end Engine

/-- A channel is fed by one session. -/
theorem Service.wired (h : Service w topic e) : e.broker.Wired :=
  have hserving : e.Serving "" ⟨topic, 0⟩ := Engine.serving_of_service h
  hserving.broker.wired

/-- A claim is on a log. -/
theorem Service.logged (h : Service w source.topic e) : e.broker.Logged source :=
  have hserving : e.Serving "" source := Engine.serving_of_service h
  hserving.broker.logged

end ConsumerGroup
