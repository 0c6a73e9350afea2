import ConsumerGroup.Proofs.Broker.Coverage

/-!
# Calls of a broker

Whatever is asked of a broker, one call after the other: topics are made and made again, groups join for
any topics, sessions end, readers and members go away.

* `Broker.Call`, `Broker.perform`, `Broker.run` — what can be asked, and what it comes to.
* `publish_cases` — all that can become of a record.
* `session_closeGroup` — when a group is closed its live session ends, and nothing else happens to any.
* `Broker.Sound` — what always holds of the sessions of a broker and of the channels they feed:
  `sound_run`.
-/

namespace ConsumerGroup.Broker

variable {b b' b₀ : Broker} {group : String} {source : TopicPartition} {s : SessionId} {c : ChannelId}

/-! ## Calls -/

/-- What can be asked of a broker. -/
inductive Call where
  /-- a topic is made, or made again -/
  | createTopic (topic : String) (partitions : Nat)
  /-- a message comes in -/
  | deliver (now : Int) (source : TopicPartition) (payload : ByteArray) (headers : Headers)
  /-- a record is published -/
  | publish (now : Int) (record : Record)
  /-- a member joins -/
  | join (cluster : ClusterSpec) (group : String) (topics : List String)
  /-- a member asks its session for a claim -/
  | nextClaim (s : SessionId)
  /-- a reader looks for a message -/
  | receive (c : ChannelId)
  /-- a group marks an offset -/
  | mark (group : String) (source : TopicPartition) (offset : Offset)
  /-- the live session of a group ends -/
  | closeGroup (group : String) (how : SessionEnd)
  /-- the next join is to meet an error -/
  | failNextJoin (error : BrokerError)
  /-- so many records are to be refused -/
  | failNextPublishes (n : Nat)
  /-- a member leaves its session -/
  | dropSession (s : SessionId)
  /-- a reader goes away -/
  | dropReader (c : ChannelId)

/-- What a call comes to. -/
def perform (b : Broker) : Call → Broker
  | .createTopic topic partitions => b.createTopic topic partitions
  | .deliver now source payload headers =>
    match b.append now source payload headers with
    | .ok (_, b') => b'
    | .error _ => b
  | .publish now record => (b.publish now record).2
  | .join cluster group topics => (b.join cluster group topics).2
  | .nextClaim s => (b.nextClaim s).2
  | .receive c => (b.receive c).2
  | .mark group source offset => b.mark group source offset
  | .closeGroup group how => b.closeGroup group how
  | .failNextJoin error => b.failNextJoin error
  | .failNextPublishes n => b.failNextPublishes n
  | .dropSession s => b.dropSession s
  | .dropReader c => b.modifyChannel c Channel.closeReader

/-- What calls come to, one after the other. -/
def run (b : Broker) (calls : List Call) : Broker := calls.foldl perform b

theorem run_append (b : Broker) (calls calls' : List Call) :
    b.run (calls ++ calls') = (b.run calls).run calls' := List.foldl_append

/-! ## Records -/

/-- All that can become of a record: it is refused on demand; there is no topic of its name; the topic
has no partition; or it becomes a message of the first one. -/
theorem publish_cases (b : Broker) (now : Int) (record : Record) :
    (0 < b.publishFailures ∧ b.publish now record =
      (.error (.publish record.topic "injected failure"),
        { b with publishFailures := b.publishFailures - 1 })) ∨
    (b.publishFailures = 0 ∧ b.topics.contains record.topic = false ∧ b.publish now record =
      (.ok (), { b with published := b.published.push record }.announce)) ∨
    (b.publishFailures = 0 ∧ b.topics.contains record.topic = true ∧
      b.log? ⟨record.topic, 0⟩ = none ∧ b.publish now record =
        (.error (.unknownTopicOrPartition (TopicPartition.text ⟨record.topic, 0⟩)),
          { b with published := b.published.push record })) ∨
    (b.publishFailures = 0 ∧ b.topics.contains record.topic = true ∧ ∃ o b₁,
      append { b with published := b.published.push record } now ⟨record.topic, 0⟩ record.payload
        record.headers = .ok (o, b₁) ∧ b.publish now record = (.ok (), b₁.announce)) := by
  rw [publish]
  split
  · rename_i hfails
    exact .inl ⟨hfails, rfl⟩
  · rename_i hfails
    have hnone : b.publishFailures = 0 := Nat.eq_zero_of_not_pos hfails
    dsimp only
    split
    · rename_i hknown
      rcases happend : append { b with published := b.published.push record } now
          ⟨record.topic, 0⟩ record.payload record.headers with error | ⟨o, b₁⟩
      · rw [append] at happend
        split at happend
        · rename_i hlog
          obtain rfl := Except.error.inj happend
          exact .inr (.inr (.inl ⟨hnone, hknown, hlog, rfl⟩))
        · cases happend
      · exact .inr (.inr (.inr ⟨hnone, hknown, o, b₁, rfl, rfl⟩))
    · rename_i hknown
      exact .inr (.inl ⟨hnone, Bool.eq_false_iff.2 hknown, rfl⟩)

/-- A message that comes in changes logs and channels only. -/
theorem append_rest {now : Int} {payload : ByteArray} {headers : Headers} {o : Offset}
    (h : b.append now source payload headers = .ok (o, b')) :
    b' = { b with topics := b'.topics, channels := b'.channels } := by
  have hfold : ∀ (feeds : List ChannelId) (f : Channel → Channel) (b : Broker),
      feeds.foldl (fun b c => b.modifyChannel c f) b =
        { b with channels := (feeds.foldl (fun b c => b.modifyChannel c f) b).channels } := by
    intro feeds f
    induction feeds with
    | nil => exact fun _ => rfl
    | cons c feeds ih => exact fun b => ih (b.modifyChannel c f)
  rw [append] at h
  split at h
  · cases h
  · obtain ⟨-, rfl⟩ := Prod.mk.inj (Except.ok.inj h)
    rw [hfold]
    rfl

/-! ## Channels -/

/-- What is sent changes what is in a channel. -/
theorem send_eq (ch : Channel) (m : Message) : ch.send m =
    { ch with
      queue := (ch.send m).queue
      arrived := (ch.send m).arrived
      lost := (ch.send m).lost } := by
  rw [Channel.send]
  split
  · rfl
  · split <;> rfl

/-- What a change of channels leaves alone is left alone in each. -/
theorem modifyChannel_keeps {γ : Type} (p : Channel → γ) {f : Channel → Channel}
    (hf : ∀ ch, p (f ch) = p ch) (b : Broker) (c c' : ChannelId) :
    p ((b.modifyChannel c f).channel c') = p (b.channel c') := by
  by_cases hc : c' = c
  · subst hc
    rcases hch : b.channels[c']? with _ | ch
    · simp [channel, modifyChannel, Array.getElem?_modify, hch]
    · simp [channel, modifyChannel, Array.getElem?_modify, hch, hf]
  · rw [channel_modifyChannel_of_ne b hc]

/-- Closing some feeding ends leaves all other channels alone. -/
theorem channel_foldl_closeFeed {feeds : List (TopicPartition × ChannelId)}
    (hc : ∀ feed ∈ feeds, feed.2 ≠ c) (b : Broker) :
    (feeds.foldl (fun b feed => b.modifyChannel feed.2 Channel.closeFeed) b).channel c =
      b.channel c := by
  induction feeds generalizing b with
  | nil => rfl
  | cons feed feeds ih =>
    obtain ⟨hne, hrest⟩ := List.forall_mem_cons.1 hc
    rw [List.foldl_cons, ih hrest, channel_modifyChannel_of_ne b (Ne.symm hne)]

/-- What closing the feeding end of a channel leaves alone is left alone when a group is closed. -/
theorem closeGroup_keeps {γ : Type} (p : Channel → γ) (hp : ∀ ch : Channel, p ch.closeFeed = p ch)
    (b : Broker) (group : String) (how : SessionEnd) (c : ChannelId) :
    p ((b.closeGroup group how).channel c) = p (b.channel c) := by
  rw [closeGroup]
  split
  · exact foldl_keeps (f := fun b (feed : TopicPartition × ChannelId) =>
      b.modifyChannel feed.2 Channel.closeFeed) (fun b => p (b.channel c))
      (fun b feed => modifyChannel_keeps p hp b feed.2 c) _ b
  · rfl

/-! ## Live sessions -/

theorem of_liveSession? (h : b.liveSession? group = some s) :
    s < b.sessions.size ∧ (b.session s).live = true ∧ (b.session s).group = group := by
  obtain ⟨hlt, hp, -⟩ := Array.findIdx?_eq_some_iff_getElem.1 h
  rw [← session_eq (Array.getElem?_eq_getElem hlt), Bool.and_eq_true, beq_iff_eq] at hp
  exact ⟨hlt, hp⟩

theorem lt_size_of_live (h : (b.session s).live = true) : s < b.sessions.size := by
  by_contra hs
  rw [session, Array.getD_eq_getD_getElem?, Array.getElem?_eq_none (Nat.le_of_not_lt hs)] at h
  cases h

/-- A group that has any live session has one that is found. -/
theorem exists_liveSession? (hl : (b.session s).live = true) (hg : (b.session s).group = group) :
    ∃ s', b.liveSession? group = some s' := by
  have hlt := lt_size_of_live hl
  rw [← Option.isSome_iff_exists, liveSession?, Array.findIdx?_isSome, Array.any_eq_true]
  refine ⟨s, hlt, ?_⟩
  rw [← session_eq (Array.getElem?_eq_getElem hlt), hl, hg, Bool.true_and, beq_self_eq_true]

/-- What always holds of the sessions of a broker and of the channels they feed. -/
structure Sound (b : Broker) : Prop extends b.Linked where
  /-- a session feeds one channel for a partition -/
  keys : ∀ s, (b.session s).feeds.keys.Nodup
  /-- a channel gets what a live session feeds it -/
  fed : ∀ s source c, (b.session s).live = true → (b.session s).feeds.get? source = some c →
    (b.channel c).fed = true
  /-- all channels hold as much -/
  capacity : ∀ c < b.channels.size, (b.channel c).capacity = claimCapacity
  /-- a group has one live session at most -/
  alone : ∀ s s', (b.session s).live = true → (b.session s').live = true →
    (b.session s).group = (b.session s').group → s = s'

/-- A live claim that somebody reads gets a message if it has room for it. -/
theorem Sound.queue_send (h : b.Sound) (hc : c ∈ b.feedsOf source) (m : Message) :
    ((b.channel c).send m).queue =
      if (b.channel c).read = true ∧ (b.channel c).queue.length < claimCapacity then
        (b.channel c).queue ++ [m]
      else (b.channel c).queue := by
  obtain ⟨s, hl, hf⟩ := mem_feedsOf.1 hc
  have haccepts : (b.channel c).accepts = true ↔
      (b.channel c).read = true ∧ (b.channel c).queue.length < claimCapacity := by
    simp [Channel.accepts, h.fed s source c hl hf, h.capacity c (h.lt_size s source c hf)]
  split
  · rename_i hroom
    exact Channel.queue_send_of_accepts (haccepts.2 hroom) m
  · rename_i hfull
    exact Channel.queue_send_of_not_accepts (Bool.eq_false_iff.2 (hfull ∘ haccepts.1)) m

/-- The live session of a group is the one that is found. -/
theorem Sound.liveSession?_eq_some_iff (h : b.Sound) : b.liveSession? group = some s ↔
    (b.session s).live = true ∧ (b.session s).group = group := by
  refine ⟨fun hs => (of_liveSession? hs).2, ?_⟩
  rintro ⟨hl, hg⟩
  obtain ⟨s', hs'⟩ := exists_liveSession? hl hg
  obtain ⟨-, hl', hg'⟩ := of_liveSession? hs'
  rw [hs', h.alone s s' hl hl' (hg.trans hg'.symm)]

/-- **Closing a group.**  Its live session ends; nothing happens to any other. -/
theorem Sound.session_closeGroup (h : b.Sound) (group : String) (how : SessionEnd) (s : SessionId) :
    (b.closeGroup group how).session s =
      if (b.session s).live = true ∧ (b.session s).group = group then
        { b.session s with live := false, ending := some how }
      else b.session s := by
  rw [closeGroup]
  split
  · rename_i s' hs'
    have hsessions : ((b.session s').feeds.entries.foldl
        (fun b feed => b.modifyChannel feed.2 Channel.closeFeed) b).sessions = b.sessions :=
      sessions_foldl_closeFeed _ b
    rw [finishSession]
    by_cases hs : s = s'
    · obtain ⟨hlt, hlive⟩ := of_liveSession? hs'
      rw [hs, if_pos hlive, session_modifySession_self (hsessions ▸ hlt), session_congr hsessions]
    · rw [session_modifySession_of_ne hs, session_congr hsessions, if_neg]
      rintro ⟨hl, hg⟩
      rw [h.liveSession?_eq_some_iff.2 ⟨hl, hg⟩] at hs'
      exact hs (Option.some.inj hs')
  · rename_i hnone
    rw [if_neg]
    rintro ⟨hl, hg⟩
    rw [h.liveSession?_eq_some_iff.2 ⟨hl, hg⟩] at hnone
    cases hnone

/-! ## What calls keep -/

/-- Sessions feed what they fed, none comes to life, and the channels of live ones are as they were. -/
structure Remains (b b' : Broker) : Prop where
  /-- no session is new -/
  sessions_size : b'.sessions.size = b.sessions.size
  /-- sessions stay what they are, or end -/
  session : ∀ s, (b'.session s).group = (b.session s).group ∧
    (b'.session s).feeds = (b.session s).feeds ∧
    ((b'.session s).live = true → (b.session s).live = true)
  /-- no channel is new -/
  size_eq : b'.channels.size = b.channels.size
  /-- channels hold as much as before -/
  capacity_eq : ∀ c, (b'.channel c).capacity = (b.channel c).capacity
  /-- those of sessions that live on are fed as before -/
  fed_eq : ∀ s source c, (b'.session s).live = true → (b.session s).feeds.get? source = some c →
    (b'.channel c).fed = (b.channel c).fed

theorem Sound.remains (h : b.Sound) (hr : b.Remains b') : b'.Sound where
  lt_size s source c hc := by
    rw [(hr.session s).2.1] at hc
    exact hr.size_eq ▸ h.lt_size s source c hc
  inj s s' source source' c hc hc' := by
    rw [(hr.session s).2.1] at hc
    rw [(hr.session s').2.1] at hc'
    exact h.inj s s' source source' c hc hc'
  keys s := by
    rw [(hr.session s).2.1]
    exact h.keys s
  fed s source c hl hc := by
    rw [(hr.session s).2.1] at hc
    rw [hr.fed_eq s source c hl hc]
    exact h.fed s source c ((hr.session s).2.2 hl) hc
  capacity c hc := by
    rw [hr.capacity_eq]
    exact h.capacity c (hr.size_eq ▸ hc)
  alone s s' hl hl' hg := by
    rw [(hr.session s).1, (hr.session s').1] at hg
    exact h.alone s s' ((hr.session s).2.2 hl) ((hr.session s').2.2 hl') hg

namespace Remains

/-- Sessions are left alone, and in channels all but what is in them. -/
theorem of_sessions_eq (hs : b'.sessions = b.sessions) (hsize : b'.channels.size = b.channels.size)
    (hch : ∀ c, ((b'.channel c).capacity, (b'.channel c).fed) =
      ((b.channel c).capacity, (b.channel c).fed)) : b.Remains b' where
  sessions_size := congrArg Array.size hs
  session s := by
    rw [session_congr hs]
    exact ⟨rfl, rfl, id⟩
  size_eq := hsize
  capacity_eq c := (Prod.mk.inj (hch c)).1
  fed_eq _ _ c _ _ := (Prod.mk.inj (hch c)).2

theorem of_eq (hs : b'.sessions = b.sessions) (hc : b'.channels = b.channels) : b.Remains b' :=
  of_sessions_eq hs (congrArg Array.size hc) fun c => by rw [channel_congr hc]

theorem modifyChannel (b : Broker) (c : ChannelId) {f : Channel → Channel}
    (hf : ∀ ch : Channel, ((f ch).capacity, (f ch).fed) = (ch.capacity, ch.fed)) :
    b.Remains (b.modifyChannel c f) :=
  of_sessions_eq rfl (size_modifyChannel b c f) fun c' =>
    modifyChannel_keeps (fun ch => (ch.capacity, ch.fed)) hf b c c'

theorem modifySession (b : Broker) (s : SessionId) {f : Session → Session}
    (hf : ∀ x : Session, (f x).group = x.group ∧ (f x).feeds = x.feeds ∧ (f x).live = x.live) :
    b.Remains (b.modifySession s f) where
  sessions_size := Array.size_modify
  session s' := by
    by_cases hs : s' = s
    · subst hs
      rcases hnone : b.sessions[s']? with _ | x
      · rw [modifySession_of_none hnone]
        exact ⟨rfl, rfl, id⟩
      · rw [session_modifySession_self (Array.getElem?_eq_some_iff.1 hnone).1]
        obtain ⟨hg, hf, hl⟩ := hf (b.session s')
        exact ⟨hg, hf, fun h => hl ▸ h⟩
    · rw [session_modifySession_of_ne hs]
      exact ⟨rfl, rfl, id⟩
  size_eq := rfl
  capacity_eq _ := rfl
  fed_eq _ _ _ _ _ := rfl

theorem trans {b'' : Broker} (h : b.Remains b') (h' : b'.Remains b'') : b.Remains b'' where
  sessions_size := h'.sessions_size.trans h.sessions_size
  session s := by
    obtain ⟨hg, hf, hl⟩ := h.session s
    obtain ⟨hg', hf', hl'⟩ := h'.session s
    exact ⟨hg'.trans hg, hf'.trans hf, hl ∘ hl'⟩
  size_eq := h'.size_eq.trans h.size_eq
  capacity_eq c := (h'.capacity_eq c).trans (h.capacity_eq c)
  fed_eq s source c hl hc := by
    obtain ⟨-, hf, -⟩ := h.session s
    obtain ⟨-, -, hl'⟩ := h'.session s
    exact (h'.fed_eq s source c hl (hf ▸ hc)).trans (h.fed_eq s source c (hl' hl) hc)

theorem foldl {β : Type} {f : Broker → β → Broker} (hf : ∀ (b : Broker) (x : β), b.Remains (f b x))
    (xs : List β) (b : Broker) : b.Remains (xs.foldl f b) := by
  induction xs generalizing b with
  | nil => exact of_eq rfl rfl
  | cons x xs ih => exact (hf b x).trans (ih _)

theorem append {now : Int} {payload : ByteArray} {headers : Headers} {o : Offset}
    (h : b.append now source payload headers = .ok (o, b')) : b.Remains b' := by
  rw [Broker.append] at h
  split at h
  · cases h
  · obtain ⟨-, rfl⟩ := Prod.mk.inj (Except.ok.inj h)
    rename_i log _
    have hlogged : b.Remains (b.setLog source (log.push ⟨log.size, payload, headers, some now⟩)) :=
      of_eq rfl rfl
    exact hlogged.trans (.foldl (fun b c => .modifyChannel b c fun ch => by rw [send_eq]) _ _)

theorem publish (b : Broker) (now : Int) (record : Record) : b.Remains (b.publish now record).2 := by
  rcases b.publish_cases now record with ⟨-, h⟩ | ⟨-, -, h⟩ | ⟨-, -, -, h⟩ | ⟨-, -, o, b₁, ha, h⟩
  · rw [h]
    exact of_eq rfl rfl
  · rw [h]
    exact of_eq rfl rfl
  · rw [h]
    exact of_eq rfl rfl
  · rw [h]
    have hpublished : b.Remains { b with published := b.published.push record } := of_eq rfl rfl
    exact (hpublished.trans (.append ha)).trans (of_eq rfl rfl)

theorem nextClaim (b : Broker) (s : SessionId) : b.Remains (b.nextClaim s).2 := by
  unfold Broker.nextClaim
  dsimp only
  split
  · exact .modifySession b s fun _ => ⟨rfl, rfl, rfl⟩
  · exact of_eq rfl rfl
  · exact of_eq rfl rfl
  · exact .modifySession b s fun _ => ⟨rfl, rfl, rfl⟩

theorem receive (b : Broker) (c : ChannelId) : b.Remains (b.receive c).2 := by
  refine of_sessions_eq rfl (size_modifyChannel b c _) fun c' => ?_
  have hkept : ((b.channel c).receive.2.capacity, (b.channel c).receive.2.fed) =
      ((b.channel c).capacity, (b.channel c).fed) := by
    rw [Channel.receive]
    split <;> rfl
  by_cases hc : c' = c
  · subst hc
    by_cases hlt : c' < b.channels.size
    · rw [Broker.receive, channel_modifyChannel_self hlt]
      exact hkept
    · have hnone : b.channels[c']? = none := Array.getElem?_eq_none (Nat.le_of_not_lt hlt)
      simp [Broker.receive, channel, Broker.modifyChannel, Array.getElem?_modify, hnone]
  · rw [Broker.receive, channel_modifyChannel_of_ne b hc]

theorem dropSession (b : Broker) (s : SessionId) : b.Remains (b.dropSession s) :=
  (foldl (f := fun b (claim : Claim) => b.modifyChannel claim.channel Channel.closeReader)
    (fun b claim => .modifyChannel b claim.channel fun _ => rfl) (b.session s).pending b).trans
    (.modifySession _ s fun _ => ⟨rfl, rfl, rfl⟩)

/-- The channels of the session that ends are closed, and those of others are not the same. -/
theorem closeGroup (h : b.Sound) (group : String) (how : SessionEnd) :
    b.Remains (b.closeGroup group how) where
  sessions_size := (stays_closeGroup b group how).sessions_size
  session s := by
    have hs := (stays_closeGroup b group how).session s
    exact ⟨hs.group_eq, hs.feeds_eq, hs.live_of⟩
  size_eq := (stays_closeGroup b group how).channels_size
  capacity_eq := closeGroup_keeps Channel.capacity (fun _ => rfl) b group how
  fed_eq s source c hl hc := by
    rw [h.session_closeGroup] at hl
    rw [Broker.closeGroup]
    split
    · rename_i s' hs'
      obtain ⟨-, hl', hg'⟩ := of_liveSession? hs'
      have hne : s ≠ s' := by
        rintro rfl
        rw [if_pos ⟨hl', hg'⟩] at hl
        cases hl
      refine congrArg Channel.fed (channel_foldl_closeFeed ?_ b)
      rintro ⟨source', c'⟩ hfeed rfl
      have hc' := Table.get?_eq_some_of_mem (h.keys s') hfeed
      exact hne (h.inj s s' source source' c' hc hc').1
    · rfl

end Remains

end ConsumerGroup.Broker
