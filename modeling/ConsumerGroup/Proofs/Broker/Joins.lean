import ConsumerGroup.Proofs.Broker.Calls

/-!
# Joins

Whatever topics a group joins for, once or twice, known or not.

* `Broker.Prepares` — a session is being set up: it feeds new channels, each for one partition.
* `Sound.opens` — the session that has been set up takes its place among the others.
* `sound_run` — what always holds of sessions and channels holds after any calls.
-/

namespace ConsumerGroup.Broker

variable {b b' b₀ b₁ : Broker} {group : String} {source : TopicPartition} {s : SessionId}
  {c : ChannelId} {session : Session}

/-! ## A session is set up -/

/-- The partitions of a topic, in order. -/
def partitions (b : Broker) (topic : String) : List TopicPartition :=
  (List.range ((b.topics.get? topic).getD []).length).map fun p : Nat => ⟨topic, p⟩

/-- A session of a group is being set up at a broker that was `b₀` before, for any topics: the channels
it feeds are new. -/
structure Prepares (b₀ : Broker) (group : String) (session : Session) (b : Broker) : Prop where
  /-- channels are opened, and nothing else happens -/
  rest_eq : b = { b₀ with channels := b.channels }
  /-- the channels there were stay -/
  size_le : b₀.channels.size ≤ b.channels.size
  /-- nothing happens to them -/
  channel_eq : ∀ c < b₀.channels.size, b.channel c = b₀.channel c
  /-- the others hold as much as all do -/
  capacity : ∀ c, b₀.channels.size ≤ c → c < b.channels.size →
    (b.channel c).capacity = claimCapacity
  /-- the session is one of the group -/
  group_eq : session.group = group
  /-- it has not ended -/
  live : session.live = true
  /-- it feeds one channel for a partition -/
  keys : session.feeds.keys.Nodup
  /-- each is new, and open -/
  feeds : ∀ source c, session.feeds.get? source = some c →
    b₀.channels.size ≤ c ∧ c < b.channels.size ∧ (b.channel c).fed = true
  /-- and for one partition -/
  inj : ∀ source source' c, session.feeds.get? source = some c →
    session.feeds.get? source' = some c → source = source'

theorem prepares_start (b : Broker) (group : String) : b.Prepares group { group } b where
  rest_eq := rfl
  size_le := Nat.le_refl _
  channel_eq _ _ := rfl
  capacity _ hle hlt := absurd hlt (Nat.not_lt_of_le hle)
  group_eq := rfl
  live := rfl
  keys := List.nodup_nil
  feeds _ _ hc := absurd hc (by simp)
  inj _ _ _ hc := absurd hc (by simp)

namespace Prepares

theorem sessions_eq (h : b₀.Prepares group session b) : b.sessions = b₀.sessions := by
  rw [h.rest_eq]

theorem topics_eq (h : b₀.Prepares group session b) : b.topics = b₀.topics := by
  rw [h.rest_eq]

/-- The sessions are those before, and then the new one. -/
theorem session_push (h : b₀.Prepares group session b) (s : SessionId) :
    ({ b with sessions := b.sessions.push session } : Broker).session s =
      if s = b₀.sessions.size then session else b₀.session s := by
  rw [Broker.session_push, h.sessions_eq, session_congr h.sessions_eq]

/-- A new channel is opened for a partition. -/
theorem openChannel (h : b₀.Prepares group session b) (source : TopicPartition) {ch : Channel}
    (hcapacity : ch.capacity = claimCapacity) (hfed : ch.fed = true) :
    b₀.Prepares group
      { session with
        pending := session.pending ++ [⟨source, b.channels.size⟩]
        feeds := session.feeds.insert source b.channels.size }
      (b.openChannel ch).2 := by
  have hsize : (b.openChannel ch).2.channels.size = b.channels.size + 1 := Array.size_push _
  have hold : ∀ c < b.channels.size, (b.openChannel ch).2.channel c = b.channel c :=
    fun c hc => channel_openChannel_of_lt hc ch
  have hnew := channel_openChannel_self b ch
  refine ⟨?_, ?_, ?_, ?_, h.group_eq, h.live, Table.nodup_keys_insert h.keys _ _, ?_, ?_⟩
  · rw [Broker.openChannel]
    exact congrArg (fun b' : Broker => { b' with channels := b.channels.push ch }) h.rest_eq
  · exact hsize ▸ Nat.le_succ_of_le h.size_le
  · intro c hc
    rw [hold c (Nat.lt_of_lt_of_le hc h.size_le), h.channel_eq c hc]
  · intro c hle hlt
    rcases Nat.lt_succ_iff_lt_or_eq.1 (hsize ▸ hlt) with hlt | rfl
    · rw [hold c hlt]
      exact h.capacity c hle hlt
    · rw [hnew]
      exact hcapacity
  · intro source' c hc
    by_cases hs : source' = source
    · subst hs
      rw [Table.get?_insert_self] at hc
      obtain rfl := Option.some.inj hc
      exact ⟨h.size_le, hsize ▸ Nat.lt_succ_self _, (congrArg Channel.fed hnew).trans hfed⟩
    · rw [Table.get?_insert_of_ne _ hs] at hc
      obtain ⟨hle, hlt, hopen⟩ := h.feeds source' c hc
      exact ⟨hle, hsize ▸ Nat.lt_succ_of_lt hlt, hold c hlt ▸ hopen⟩
  · exact inj_insert h.inj (fun source' hc => Nat.lt_irrefl _ (h.feeds source' _ hc).2.1) source

/-- A channel of its own that it no longer feeds is closed. -/
theorem closeFeed (h : b₀.Prepares group session b) {c : ChannelId} (hc : b₀.channels.size ≤ c)
    (hnot : ∀ source, session.feeds.get? source ≠ some c) :
    b₀.Prepares group session (b.modifyChannel c Channel.closeFeed) where
  rest_eq := by
    rw [modifyChannel]
    exact congrArg (fun b' : Broker =>
      { b' with channels := b.channels.modify c Channel.closeFeed }) h.rest_eq
  size_le := size_modifyChannel b c _ ▸ h.size_le
  channel_eq c' hc' := by
    rw [channel_modifyChannel_of_ne b (Nat.ne_of_lt (Nat.lt_of_lt_of_le hc' hc))]
    exact h.channel_eq c' hc'
  capacity c' hle hlt := by
    have hkept := modifyChannel_keeps Channel.capacity (f := Channel.closeFeed) (fun _ => rfl) b c c'
    exact hkept.trans (h.capacity c' hle (size_modifyChannel b c _ ▸ hlt))
  group_eq := h.group_eq
  live := h.live
  keys := h.keys
  feeds source c' hc' := by
    have hne : c' ≠ c := fun heq => hnot source (heq ▸ hc')
    rw [size_modifyChannel, channel_modifyChannel_of_ne b hne]
    exact h.feeds source c' hc'
  inj := h.inj

/-- One more partition is claimed, or one is claimed again. -/
theorem claimPartition (h : b₀.Prepares group session b) (source : TopicPartition)
    (log : Array Message) :
    b₀.Prepares group (b.claimPartition session source log).1
      (b.claimPartition session source log).2 := by
  rw [Broker.claimPartition]
  dsimp only
  split
  · rename_i earlier hearlier
    refine (h.openChannel source rfl rfl).closeFeed (h.feeds source earlier hearlier).1 fun source' hc => ?_
    by_cases hs : source' = source
    · rw [hs, Table.get?_insert_self] at hc
      exact Nat.ne_of_gt (h.feeds source earlier hearlier).2.1 (Option.some.inj hc)
    · rw [Table.get?_insert_of_ne _ hs] at hc
      exact hs (h.inj source' source earlier hc hearlier)
  · exact h.openChannel source rfl rfl

/-- All partitions of a topic are claimed. -/
theorem claimTopic (h : b₀.Prepares group session b) (topic : String) :
    b₀.Prepares group (b.claimTopic session topic).1 (b.claimTopic session topic).2 := by
  rw [Broker.claimTopic]
  generalize ((b.topics.get? topic).getD []).zipIdx = partitions
  induction partitions generalizing session b with
  | nil => exact h
  | cons p partitions ih => exact ih (h.claimPartition ⟨topic, p.2⟩ p.1)

/-- All partitions of some topics are claimed. -/
theorem claimTopics (h : b₀.Prepares group session b) (topics : List String) :
    b₀.Prepares group
      (topics.foldl (fun (session, b) topic => Broker.claimTopic b session topic) (session, b)).1
      (topics.foldl (fun (session, b) topic => Broker.claimTopic b session topic) (session, b)).2 := by
  induction topics generalizing session b with
  | nil => exact h
  | cons topic topics ih => exact ih (h.claimTopic topic)

end Prepares

/-- A claim is added for each partition of the topic, in order. -/
theorem pending_claimTopic (b : Broker) (session : Session) (topic : String) :
    (b.claimTopic session topic).1.pending.map Claim.source =
      session.pending.map Claim.source ++ b.partitions topic := by
  have hfold : ∀ (partitions : List (Array Message × Nat)) (session : Session) (b : Broker),
      (partitions.foldl (fun x p => x.2.claimPartition x.1 ⟨topic, p.2⟩ p.1)
        (session, b)).1.pending.map Claim.source =
      session.pending.map Claim.source ++ partitions.map fun p => ⟨topic, p.2⟩ := by
    intro partitions
    induction partitions with
    | nil => exact fun _ _ => (List.append_nil _).symm
    | cons p partitions ih =>
      intro session b
      rw [List.foldl_cons, ih, List.map_cons, List.append_cons]
      exact congrArg (· ++ _) List.map_append
  refine (hfold _ session b).trans (congrArg (_ ++ ·) ?_)
  rw [partitions, List.range_eq_range', ← List.zipIdx_map_snd, List.map_map]
  rfl

/-- A session has a claim for each partition of the topics it was set up for, in order. -/
theorem Prepares.pending_claimTopics (h : b₀.Prepares group session b) (topics : List String) :
    (topics.foldl (fun (session, b) topic => Broker.claimTopic b session topic)
      (session, b)).1.pending.map Claim.source =
      session.pending.map Claim.source ++ topics.flatMap b₀.partitions := by
  induction topics generalizing session b with
  | nil => exact (List.append_nil _).symm
  | cons topic topics ih =>
    have hpartitions : b.partitions topic = b₀.partitions topic := by
      rw [partitions, h.topics_eq, partitions]
    refine (ih (h.claimTopic topic)).trans ?_
    rw [pending_claimTopic, hpartitions, List.flatMap_cons, List.append_assoc]

/-- A join fails, and only the attempt is noted and an error used up; or the live session of the group
ends, and a new one is set up. -/
theorem join_prepares (b : Broker) (cluster : ClusterSpec) (group : String) (topics : List String) :
    (∃ error, b.join cluster group topics = (.error error,
      { b with
        joins := b.joins.push ⟨group, cluster.brokers, topics⟩
        joinFailures := b.joinFailures.tail })) ∨
    ∃ b₀ b₁ b₂ : Broker, ∃ session,
      b₀ = { b with joins := b.joins.push ⟨group, cluster.brokers, topics⟩ } ∧
      b₁ = b₀.closeGroup group .ended ∧ b₁.Prepares group session b₂ ∧
      (topics.Nodup → b₁.Opens group session b₂) ∧
      session.pending.map Claim.source = topics.flatMap b₁.partitions ∧
      b.join cluster group topics =
        (.ok b₂.sessions.size, { b₂ with sessions := b₂.sessions.push session }) := by
  rcases join_cases b cluster group topics with
    hj | ⟨-, -, b₀, b₂, session, hb, hf, hj⟩
  · exact .inl hj
  · have hstart := prepares_start (b₀.endSession group) group
    have hprepared := hstart.claimTopics topics
    have hpending := hstart.pending_claimTopics topics
    rw [hf] at hprepared hpending
    refine .inr ⟨b₀, _, b₂, session, hb, rfl, hprepared, fun hd => ?_, hpending, hj⟩
    have hopens := (opens_start (b₀.endSession group) group).claimTopics hd fun _ _ => rfl
    rw [hf] at hopens
    exact hopens

/-! ## The session takes its place -/

/-- A session that has been set up for a group without a live one joins the others. -/
theorem Sound.opens (h : b₀.Sound) (hp : b₀.Prepares group session b₁)
    (hnone : ∀ s, (b₀.session s).live = true → (b₀.session s).group ≠ group) :
    ({ b₁ with sessions := b₁.sessions.push session } : Broker).Sound := by
  have hold : ∀ s, s ≠ b₀.sessions.size →
      ({ b₁ with sessions := b₁.sessions.push session } : Broker).session s = b₀.session s := by
    intro s hs
    rw [hp.session_push, if_neg hs]
  have hnew : ({ b₁ with sessions := b₁.sessions.push session } : Broker).session b₀.sessions.size =
      session := by
    rw [hp.session_push, if_pos rfl]
  have hchannel : ∀ s source c, (b₀.session s).feeds.get? source = some c →
      b₁.channel c = b₀.channel c :=
    fun s source c hc => hp.channel_eq c (h.lt_size s source c hc)
  have hlinked := h.toLinked.push hp.sessions_eq hp.size_le
    (fun source c hc => ⟨(hp.feeds source c hc).1, (hp.feeds source c hc).2.1⟩) hp.inj
  refine ⟨hlinked, ?_, ?_, ?_, ?_⟩
  · intro s
    by_cases hs : s = b₀.sessions.size
    · rw [hs, hnew]
      exact hp.keys
    · rw [hold s hs]
      exact h.keys s
  · intro s source c hl hc
    by_cases hs : s = b₀.sessions.size
    · rw [hs, hnew] at hc
      exact (hp.feeds source c hc).2.2
    · rw [hold s hs] at hl hc
      exact (congrArg Channel.fed (hchannel s source c hc)).trans (h.fed s source c hl hc)
  · intro c hc
    by_cases hlt : c < b₀.channels.size
    · exact (congrArg Channel.capacity (hp.channel_eq c hlt)).trans (h.capacity c hlt)
    · exact hp.capacity c (Nat.le_of_not_lt hlt) hc
  · intro s s' hl hl' hg
    by_cases hs : s = b₀.sessions.size <;> by_cases hs' : s' = b₀.sessions.size
    · exact hs.trans hs'.symm
    · rw [hs, hnew, hold s' hs', hp.group_eq] at hg
      exact absurd hg.symm (hnone s' (hold s' hs' ▸ hl'))
    · rw [hs', hnew, hold s hs, hp.group_eq] at hg
      exact absurd hg (hnone s (hold s hs ▸ hl))
    · rw [hold s hs, hold s' hs'] at hg
      exact h.alone s s' (hold s hs ▸ hl) (hold s' hs' ▸ hl') hg

/-- A group has no live session when it has been closed. -/
theorem Sound.group_ne_of_closeGroup (h : b.Sound) {how : SessionEnd}
    (hl : ((b.closeGroup group how).session s).live = true) :
    ((b.closeGroup group how).session s).group ≠ group := by
  rw [h.session_closeGroup] at hl ⊢
  split at hl
  · cases hl
  · rename_i hnot
    rw [if_neg hnot]
    exact fun hg => hnot ⟨hl, hg⟩

/-- What a join comes to for the sessions: they stay, and a new one may take the place of the live one
of its group. -/
theorem Sound.join_inv (h : b.Sound) (cluster : ClusterSpec) (group : String) (topics : List String) :
    b.Remains (b.join cluster group topics).2 ∨ ∃ b₀ b₁ session, b.Remains b₀ ∧
      (∀ s, (b₀.session s).live = true → (b₀.session s).group ≠ group) ∧
      b₀.Prepares group session b₁ ∧
      (b.join cluster group topics).2 = { b₁ with sessions := b₁.sessions.push session } := by
  rcases b.join_prepares cluster group topics with
    ⟨error, hj⟩ | ⟨b₀, b₁, b₂, session, hb, rfl, hprepared, -, -, hj⟩
  · rw [hj]
    exact .inl (.of_eq rfl rfl)
  · have hnoted : b.Remains b₀ := by
      rw [hb]
      exact .of_eq rfl rfl
    have hsound := h.remains hnoted
    rw [hj]
    exact .inr ⟨_, _, _, hnoted.trans (.closeGroup hsound group .ended),
      fun s hl => hsound.group_ne_of_closeGroup hl, hprepared, rfl⟩

/-- The sessions after a join: the live one of the group has ended, and one is new. -/
theorem Sound.session_opens (h : b.Sound)
    (hp : (b.closeGroup group .ended).Prepares group session b₁) (s : SessionId) :
    ({ b₁ with sessions := b₁.sessions.push session } : Broker).session s =
      if s = b.sessions.size then session
      else if (b.session s).live = true ∧ (b.session s).group = group then
        { b.session s with live := false, ending := some .ended }
      else b.session s := by
  rw [hp.session_push, (stays_closeGroup b group .ended).sessions_size, h.session_closeGroup]

/-! ## Runs -/

theorem sound_empty : ({} : Broker).Sound where
  lt_size s source c hc := absurd hc (feeds_empty s source c)
  inj s _ source _ c hc := absurd hc (feeds_empty s source c)
  keys s := by
    have hnone : (({} : Broker).session s).feeds = ∅ := by simp [session]
    rw [hnone]
    exact List.nodup_nil
  fed s source c _ hc := absurd hc (feeds_empty s source c)
  capacity c hc := absurd hc (Nat.not_lt_zero c)
  alone s _ hl := absurd (lt_size_of_live hl) (Nat.not_lt_zero s)

/-- What a call comes to for the sessions. -/
theorem Sound.perform_inv (h : b.Sound) (call : Call) :
    b.Remains (b.perform call) ∨ ∃ group b₀ b₁ session, b.Remains b₀ ∧
      (∀ s, (b₀.session s).live = true → (b₀.session s).group ≠ group) ∧
      b₀.Prepares group session b₁ ∧
      b.perform call = { b₁ with sessions := b₁.sessions.push session } := by
  cases call with
  | createTopic topic partitions => exact .inl (.of_eq rfl rfl)
  | deliver now source payload headers =>
    rw [Broker.perform]
    split
    · rename_i happend
      exact .inl (.append happend)
    · exact .inl (.of_eq rfl rfl)
  | publish now record => exact .inl (.publish b now record)
  | join cluster group topics => exact (h.join_inv cluster group topics).imp_right fun hj => ⟨group, hj⟩
  | nextClaim s => exact .inl (.nextClaim b s)
  | receive c => exact .inl (.receive b c)
  | mark group source offset => exact .inl (.of_eq rfl rfl)
  | closeGroup group how => exact .inl (.closeGroup h group how)
  | failNextJoin error => exact .inl (.of_eq rfl rfl)
  | failNextPublishes n => exact .inl (.of_eq rfl rfl)
  | dropSession s => exact .inl (.dropSession b s)
  | dropReader c => exact .inl (.modifyChannel b c fun _ => rfl)

theorem Sound.perform (h : b.Sound) (call : Call) : (b.perform call).Sound := by
  rcases h.perform_inv call with hr | ⟨group, b₀, b₁, session, hr, hnone, hp, heq⟩
  · exact h.remains hr
  · rw [heq]
    exact (h.remains hr).opens hp hnone

/-- No session goes away. -/
theorem Sound.sessions_size_le (h : b.Sound) (call : Call) :
    b.sessions.size ≤ (b.perform call).sessions.size := by
  rcases h.perform_inv call with hr | ⟨group, b₀, b₁, session, hr, -, hp, heq⟩
  · exact Nat.le_of_eq hr.sessions_size.symm
  · rw [heq, Array.size_push, hp.sessions_eq, hr.sessions_size]
    exact Nat.le_succ _

/-- A session stays what it is, or ends. -/
theorem Sound.session_perform (h : b.Sound) (call : Call) {s : SessionId}
    (hs : s < b.sessions.size) :
    ((b.perform call).session s).group = (b.session s).group ∧
      ((b.perform call).session s).feeds = (b.session s).feeds ∧
      (((b.perform call).session s).live = true → (b.session s).live = true) := by
  rcases h.perform_inv call with hr | ⟨group, b₀, b₁, session, hr, -, hp, heq⟩
  · exact hr.session s
  · have hold : (b.perform call).session s = b₀.session s := by
      rw [heq, hp.session_push, hr.sessions_size, if_neg (Nat.ne_of_lt hs)]
    rw [hold]
    exact hr.session s

theorem Sound.run (h : b.Sound) (calls : List Call) : (b.run calls).Sound := by
  induction calls generalizing b with
  | nil => exact h
  | cons call calls ih => exact ih (h.perform call)

/-- Whatever a broker was asked, a group has one live session at most, each channel is fed by one
session for one partition, and those that live sessions feed are open. -/
theorem sound_run (calls : List Call) : (({} : Broker).run calls).Sound := sound_empty.run calls

end ConsumerGroup.Broker
