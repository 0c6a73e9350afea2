import ConsumerGroup.Proofs.Broker.Coverage
import ConsumerGroup.Proofs.Engine.Claims

/-!
# A topic and the sessions that read it

* `log?_append`, `log?_publish` — the log of one partition gets one more message, no other changes.
* `Broker.message?` — the message at a place of a log, before and after that.
* `Broker.Turn` — what one step may come to for a broker at which everybody reads the same topic, and
  the claim that is handed out in that step, if there is one.
* `Broker.ReadBy` — all sessions are those of different groups, and each is fed by all partitions of
  the topic and by nothing else.  `ReadBy.turn` says that this stays so as long as no session ends.
* `Turn.handed` — what feeds a session is a claim that it has to hand out, or was handed out.
-/

namespace ConsumerGroup.Broker

variable {b b' : Broker} {source : TopicPartition} {topic : String}

/-! ## Logs -/

/-- How many messages a partition has. -/
def size (b : Broker) (source : TopicPartition) : Nat := ((b.log? source).getD #[]).size

theorem size_congr (h : b'.topics = b.topics) (source : TopicPartition) :
    b'.size source = b.size source := by
  rw [size, log?_congr h, size]

theorem size_eq {log : Array Message} (h : b.log? source = some log) : b.size source = log.size := by
  rw [size, h, Option.getD_some]

theorem contains_of_log? {log : Array Message} (h : b.log? source = some log) :
    b.topics.contains source.topic = true := by
  by_contra hnone
  rw [log?_eq_none (Bool.eq_false_iff.2 hnone)] at h
  cases h

/-- A topic with any partition has a first one. -/
theorem log?_first {log : Array Message} (h : b.log? source = some log) :
    ∃ log₀, b.log? ⟨source.topic, 0⟩ = some log₀ := by
  rw [log?] at h
  split at h
  · cases h
  · obtain ⟨logs, hlogs, hget⟩ := Option.bind_eq_some_iff.1 h
    obtain ⟨hlt, -⟩ := List.getElem?_eq_some_iff.1 hget
    have hpos : 0 < logs.length := Nat.zero_lt_of_lt hlt
    exact ⟨logs[0], by simp [log?, hlogs, hpos]⟩

theorem topics_foldl_send (feeds : List ChannelId) (m : Message) (b : Broker) :
    (feeds.foldl (fun b c => b.modifyChannel c (·.send m)) b).topics = b.topics :=
  foldl_keeps (f := fun b c => b.modifyChannel c (·.send m)) Broker.topics (fun _ _ => rfl) feeds b

/-- A message that comes in is the last of its log. -/
theorem log?_append {now : Int} {payload : ByteArray} {headers : Headers} {o : Offset}
    (h : b.append now source payload headers = .ok (o, b')) :
    ∃ log, b.log? source = some log ∧ ∀ source', b'.log? source' =
      if source' = source then some (log.push ⟨log.size, payload, headers, some now⟩)
      else b.log? source' := by
  rw [append] at h
  split at h
  · cases h
  · rename_i log hlog
    obtain ⟨-, rfl⟩ := Prod.mk.inj (Except.ok.inj h)
    refine ⟨log, hlog, fun source' => ?_⟩
    rw [← log?_setLog hlog source']
    exact log?_congr (topics_foldl_send _ _ _) source'

/-- No topic goes away. -/
theorem contains_append {now : Int} {payload : ByteArray} {headers : Headers} {o : Offset}
    (h : b.append now source payload headers = .ok (o, b')) {topic : String}
    (ht : b.topics.contains topic = true) : b'.topics.contains topic = true := by
  rw [append] at h
  split at h
  · cases h
  · obtain ⟨-, rfl⟩ := Prod.mk.inj (Except.ok.inj h)
    rw [topics_foldl_send]
    by_cases hs : topic = source.topic
    · simp [setLog, Table.contains, hs]
    · rw [Table.contains] at ht
      simp [setLog, Table.contains, Table.get?_insert_of_ne _ hs, ht]

/-- A record that is taken becomes the last message of the first partition. -/
theorem log?_publish {now : Int} {record : Record} {log : Array Message}
    (h : b.publish now record = (.ok (), b')) (hlog : b.log? ⟨record.topic, 0⟩ = some log)
    (source' : TopicPartition) : b'.log? source' =
      if source' = ⟨record.topic, 0⟩ then
        some (log.push ⟨log.size, record.payload, record.headers, some now⟩)
      else b.log? source' := by
  have hknown : b.topics.contains record.topic = true := contains_of_log? hlog
  rw [publish] at h
  split at h
  · cases h
  · simp only [hknown, if_true] at h
    split at h
    · rename_i b₁ happend
      obtain ⟨-, rfl⟩ := Prod.mk.inj h
      obtain ⟨log', hlog', hlogs⟩ := log?_append happend
      obtain rfl := Option.some.inj (hlog.symm.trans hlog')
      exact hlogs source'
    · cases h

/-- The message at a place. -/
def message? (b : Broker) (place : TopicPartition × Nat) : Option Message :=
  (b.log? place.1).bind fun log => log[place.2]?

theorem message?_congr (h : b'.topics = b.topics) (place : TopicPartition × Nat) :
    b'.message? place = b.message? place := by
  rw [message?, log?_congr h, message?]

theorem isSome_message?_iff (place : TopicPartition × Nat) :
    (b.message? place).isSome = true ↔ place.2 < b.size place.1 := by
  rw [message?, size]
  rcases b.log? place.1 with _ | log
  · simp
  · simp

/-- A message that comes in is at the place behind all others of its log. -/
theorem message?_push {log : Array Message} {m : Message} (hlog : b.log? source = some log)
    (hlogs : ∀ source', b'.log? source' =
      if source' = source then some (log.push m) else b.log? source')
    (place : TopicPartition × Nat) :
    b'.message? place = if place = (source, b.size source) then some m else b.message? place := by
  obtain ⟨source', o⟩ := place
  rw [message?, hlogs, size_eq hlog]
  by_cases hs : source' = source
  · subst hs
    simp only [if_true, Option.bind_some, Array.getElem?_push, message?, hlog, Prod.mk.injEq,
      true_and]
  · simp [hs, message?]

/-- No message is at the places of a topic that has just been made. -/
theorem message?_createTopic {topic' : String} (hnew : b.topics.contains topic' = false)
    (partitions : Nat) (place : TopicPartition × Nat) :
    (b.createTopic topic' partitions).message? place = b.message? place := by
  obtain ⟨source, o⟩ := place
  by_cases hs : source.topic = topic'
  · subst hs
    rw [message?, message?, log?_eq_none hnew]
    rcases hlog : (b.createTopic source.topic partitions).log? source with _ | log
    · rfl
    · simp [eq_of_log?_createTopic hlog]
  · rw [message?, message?, log?_createTopic_of_ne hs]

/-- A record that is not taken leaves the logs alone. -/
theorem topics_publish_error {now : Int} {record : Record} {error : BrokerError}
    (h : b.publish now record = (.error error, b')) : b'.topics = b.topics := by
  rw [publish] at h
  split at h
  · obtain ⟨-, rfl⟩ := Prod.mk.inj h
    rfl
  · dsimp only at h
    split at h
    · split at h
      · cases h
      · obtain ⟨-, rfl⟩ := Prod.mk.inj h
        rfl
    · cases h

/-! ## What a new session is fed by -/

/-- A session that has not handed out a claim is fed by partitions of one topic. -/
def IsNewOn (topic : String) (session : Session) : Prop :=
  ∀ source c, session.feeds.get? source = some c →
    source.topic = topic ∧ ⟨source, c⟩ ∈ session.pending

theorem IsNewOn.claimPartition {session : Session} (h : IsNewOn topic session) (b : Broker) (p : Nat)
    (log : Array Message) : IsNewOn topic (b.claimPartition session ⟨topic, p⟩ log).1 := by
  intro source c hc
  change (session.feeds.insert ⟨topic, p⟩ b.channels.size).get? source = some c at hc
  change source.topic = topic ∧ _ ∈ session.pending ++ [⟨⟨topic, p⟩, b.channels.size⟩]
  by_cases hs : source = ⟨topic, p⟩
  · subst hs
    rw [Table.get?_insert_self] at hc
    obtain rfl := Option.some.inj hc
    exact ⟨rfl, List.mem_append_right _ List.mem_cons_self⟩
  · rw [Table.get?_insert_of_ne _ hs] at hc
    exact ⟨(h source c hc).1, List.mem_append_left _ (h source c hc).2⟩

/-- Whatever was fed before is fed after one more partition has been claimed, and so is that one. -/
theorem isSome_claimPartition {session : Session} (b : Broker) (source source' : TopicPartition)
    (log : Array Message)
    (h : (session.feeds.get? source').isSome = true ∨ source' = source) :
    ((b.claimPartition session source log).1.feeds.get? source').isSome = true := by
  change ((session.feeds.insert source b.channels.size).get? source').isSome = true
  by_cases hs : source' = source
  · rw [hs, Table.get?_insert_self, Option.isSome_some]
  · rw [Table.get?_insert_of_ne _ hs]
    exact h.resolve_right hs

/-- A session that claims a topic is fed by all partitions of it. -/
theorem claimTopic_inv (b : Broker) (topic : String) {session : Session}
    (h : IsNewOn topic session) :
    IsNewOn topic (b.claimTopic session topic).1 ∧
      ∀ source log, source.topic = topic → b.log? source = some log →
        ((b.claimTopic session topic).1.feeds.get? source).isSome = true := by
  have hfold : ∀ (partitions : List (Array Message × Nat)) (session : Session) (b : Broker),
      IsNewOn topic session →
      let r := partitions.foldl (fun x p => x.2.claimPartition x.1 ⟨topic, p.2⟩ p.1) (session, b)
      IsNewOn topic r.1 ∧ ∀ source : TopicPartition, ((session.feeds.get? source).isSome = true ∨
        ∃ p ∈ partitions, source = ⟨topic, p.2⟩) → (r.1.feeds.get? source).isSome = true := by
    intro partitions
    induction partitions with
    | nil => exact fun session b h => ⟨h, fun source hs => hs.resolve_right (by simp)⟩
    | cons p partitions ih =>
      intro session b h
      obtain ⟨hnew, hall⟩ := ih _ _ (h.claimPartition b p.2 p.1)
      refine ⟨hnew, fun source hs => hall source ?_⟩
      rcases hs with hs | ⟨p', hp', rfl⟩
      · exact Or.inl (isSome_claimPartition b _ _ _ (Or.inl hs))
      · rcases List.mem_cons.1 hp' with rfl | hp'
        · exact Or.inl (isSome_claimPartition b _ _ _ (Or.inr rfl))
        · exact Or.inr ⟨p', hp', rfl⟩
  obtain ⟨hnew, hall⟩ := hfold ((b.topics.get? topic).getD []).zipIdx session b h
  refine ⟨hnew, fun source log ht hlog => hall source (Or.inr ?_)⟩
  obtain ⟨_, p⟩ := source
  obtain rfl : _ = topic := ht
  rw [log?] at hlog
  split at hlog
  · cases hlog
  · rename_i hp
    obtain ⟨logs, hlogs, hget⟩ := Option.bind_eq_some_iff.1 hlog
    rw [hlogs, Option.getD_some]
    refine ⟨(log, p.toNat), List.mem_zipIdx_iff_getElem?.2 hget, ?_⟩
    rw [Int.toNat_of_nonneg (Int.not_lt.1 hp)]

/-! ## Sessions that change -/

/-- A group that has a live session loses one when its session is ended. -/
theorem exists_ended_of_closeGroup {group : String} {s : SessionId} (hs : s < b.sessions.size)
    (hl : (b.session s).live = true) (hg : (b.session s).group = group) (how : SessionEnd) :
    ∃ s' < b.sessions.size, ((b.closeGroup group how).session s').live = false := by
  have hfound : (b.liveSession? group).isSome = true := by
    rw [liveSession?, Array.findIdx?_isSome, Array.any_eq_true]
    refine ⟨s, hs, ?_⟩
    rw [← session_eq (Array.getElem?_eq_getElem hs)]
    simp [hl, hg]
  obtain ⟨s', hs'⟩ := Option.isSome_iff_exists.1 hfound
  have hlt : s' < b.sessions.size := (Array.findIdx?_eq_some_iff_getElem.1 hs').1
  refine ⟨s', hlt, ?_⟩
  have hsessions : ((b.session s').feeds.entries.foldl
      (fun b feed => b.modifyChannel feed.2 Channel.closeFeed) b).sessions = b.sessions :=
    sessions_foldl_closeFeed _ b
  simp only [closeGroup, hs', finishSession]
  rw [session_modifySession_self (by rw [hsessions]; exact hlt)]

/-! ## Joins -/

/-- An attempt to join that fails changes nothing that is read. -/
theorem join_error {cluster : ClusterSpec} {group : String} {topics : List String}
    {error : BrokerError} (h : b.join cluster group topics = (.error error, b')) :
    b'.topics = b.topics ∧ b'.sessions = b.sessions ∧ b'.channels = b.channels := by
  rcases join_cases b cluster group topics with ⟨_, hj⟩ | ⟨-, -, _, _, _, -, -, hj⟩
  · obtain ⟨-, rfl⟩ := Prod.mk.inj (h.symm.trans hj)
    exact ⟨rfl, rfl, rfl⟩
  · cases (Prod.mk.inj (h.symm.trans hj)).1

/-- A join leaves the logs alone. -/
theorem topics_join {cluster : ClusterSpec} {group : String}
    {answer : Except BrokerError SessionId} (h : b.join cluster group [topic] = (answer, b')) :
    b'.topics = b.topics := by
  rcases b.join_inv cluster group (List.nodup_singleton topic) with ⟨error, b₁, heq, hstays⟩ |
    ⟨b₀, b₁, session, hstays, -, hopens, heq⟩
  · obtain ⟨-, rfl⟩ := Prod.mk.inj (h.symm.trans heq)
    exact hstays.topics_eq
  · obtain ⟨-, rfl⟩ := Prod.mk.inj (h.symm.trans heq)
    exact hopens.topics_eq.trans hstays.topics_eq

/-- What a join comes to that succeeds: the group had no live session, and the new session is fed by
all partitions of the topic and has all claims to hand out. -/
theorem join_ok {cluster : ClusterSpec} {group : String} {s : SessionId}
    (h : b.join cluster group [topic] = (.ok s, b')) :
    b.topics.contains topic = true ∧ ∃ b₀ b₁ session, b.Stays b₀ ∧ b₀.Opens group session b₁ ∧
      b' = { b₁ with sessions := b₁.sessions.push session } ∧ IsNewOn topic session ∧
      (∀ source log, source.topic = topic → b.log? source = some log →
        (session.feeds.get? source).isSome = true) ∧
      (∀ s, (b₀.session s).pending = (b.session s).pending) ∧
      ∀ s < b.sessions.size, (b.session s).live = true → (b.session s).group = group →
        ∃ s' < b.sessions.size, (b₀.session s').live = false := by
  have hempty : IsNewOn topic { group } := nofun
  rcases join_cases b cluster group [topic] with
    ⟨_, hj⟩ | ⟨-, hknown, b₁, b₂, session, hb, hf, hj⟩
  · cases (Prod.mk.inj (h.symm.trans hj)).1
  · obtain ⟨-, rfl⟩ := Prod.mk.inj (h.symm.trans hj)
    have hnoted : b.Stays b₁ := by
      rw [hb]
      exact .of_eq rfl rfl rfl
    have hsessions : b₁.sessions = b.sessions := by rw [hb]
    have hended : b.Stays (b₁.endSession group) := hnoted.trans (stays_closeGroup b₁ group .ended)
    obtain ⟨hopens, -⟩ :=
      (opens_start (b₁.endSession group) group).claimTopic topic fun _ _ => rfl
    obtain ⟨hnew, hall⟩ := (b₁.endSession group).claimTopic_inv topic hempty
    have hclaimed : (b₁.endSession group).claimTopic { group } topic = (session, b₂) := hf
    rw [hclaimed] at hopens hnew hall
    refine ⟨hknown topic List.mem_cons_self, b₁.endSession group, _, _, hended, hopens, rfl, hnew, ?_,
      fun s => ?_, ?_⟩
    · intro source log ht hlog
      exact hall source log ht ((hended.log?_eq source).trans hlog)
    · exact (pending_closeGroup b₁ group .ended s).trans
        (congrArg Session.pending (session_congr hsessions s))
    · intro s hs hl hg
      rw [← session_congr hsessions] at hl hg
      rw [← hsessions] at hs ⊢
      exact exists_ended_of_closeGroup hs hl hg .ended

/-! ## What a step may come to -/

/-- What one step may come to for a broker at which everybody reads one topic, and the claim that is
handed out. -/
inductive Turn (topic : String) (b : Broker) : Option Claim → Broker → Prop where
  /-- nothing comes in -/
  | stays {b' : Broker} : b.Stays b' → (∀ s, (b'.session s).pending = (b.session s).pending) →
      Turn topic b none b'
  /-- a claim is handed out -/
  | hands {b' : Broker} {s : SessionId} {claim : Claim} : b.nextClaim s = (.claim claim, b') →
      Turn topic b (some claim) b'
  /-- a message comes in -/
  | appends {b₀ b₁ b' : Broker} {now : Int} {source : TopicPartition} {payload : ByteArray}
      {headers : Headers} {o : Offset} : b₀.topics = b.topics → b₀.sessions = b.sessions →
      b₀.append now source payload headers = .ok (o, b₁) →
      b'.topics = b₁.topics → b'.sessions = b₁.sessions → Turn topic b none b'
  /-- a topic is made that was not there -/
  | creates (topic' : String) (partitions : Nat) :
      (topic' = topic → b.topics.contains topic' = false) →
      Turn topic b none (b.createTopic topic' partitions)
  /-- a member joins -/
  | joins {cluster : ClusterSpec} {group : String} {s : SessionId} {b' : Broker} :
      b.join cluster group [topic] = (.ok s, b') → Turn topic b none b'

namespace Turn

theorem of_eq (ht : b'.topics = b.topics) (hs : b'.sessions = b.sessions)
    (hc : b'.channels = b.channels) : Turn topic b none b' :=
  .stays (.of_eq ht hs hc) fun s => congrArg Session.pending (session_congr hs s)

/-- A record is handed to the broker, and an offset may be marked after that. -/
theorem publish (b : Broker) (now : Int) (record : Record)
    (ht : b'.topics = (b.publish now record).2.topics)
    (hs : b'.sessions = (b.publish now record).2.sessions)
    (hc : b'.channels = (b.publish now record).2.channels) : Turn topic b none b' := by
  rw [Broker.publish] at ht hs hc
  split at ht
  · rename_i hfail
    rw [if_pos hfail] at hs hc
    exact of_eq ht hs hc
  · rename_i hfail
    rw [if_neg hfail] at hs hc
    dsimp only at ht hs hc
    split at ht
    · rename_i hknown
      rw [if_pos hknown] at hs hc
      split at ht
      · rename_i happend
        rw [happend] at hs
        refine .appends ?_ ?_ happend ht hs
        · rfl
        · rfl
      · rename_i happend
        rw [happend] at hs hc
        exact of_eq ht hs hc
    · rename_i hknown
      rw [if_neg hknown] at hs hc
      exact of_eq ht hs hc

/-- **Claims.**  What feeds a session is a claim that it has to hand out, or has just handed out, or
had handed out before. -/
theorem handed {claim? : Option Claim} (h : Turn topic b claim? b') {s : SessionId} {c : ChannelId}
    (hc : (b'.session s).feeds.get? source = some c) :
    ⟨source, c⟩ ∈ (b'.session s).pending ∨ claim? = some ⟨source, c⟩ ∨
      (b.session s).feeds.get? source = some c ∧ ⟨source, c⟩ ∉ (b.session s).pending := by
  have hsame : ∀ {x y : Session}, y.feeds.get? source = some c → y.feeds = x.feeds →
      y.pending = x.pending → ⟨source, c⟩ ∈ y.pending ∨ claim? = some ⟨source, c⟩ ∨
        x.feeds.get? source = some c ∧ ⟨source, c⟩ ∉ x.pending := by
    intro x y hc hf hp
    rw [hp, ← hf]
    by_cases hmem : (⟨source, c⟩ : Claim) ∈ x.pending
    · exact Or.inl hmem
    · exact Or.inr (Or.inr ⟨hc, hmem⟩)
  cases h with
  | stays hs hp => exact hsame hc (hs.session s).feeds_eq (hp s)
  | @hands _ s' claim hn =>
    obtain ⟨rest, hpending, rfl⟩ := pending_of_nextClaim hn
    by_cases hs : s = s'
    · subst hs
      obtain ⟨session, hsession, -⟩ := getElem?_of_pending hpending
      rw [session_modifySession_self (Array.getElem?_eq_some_iff.1 hsession).1] at hc ⊢
      rw [hpending]
      change (b.session s).feeds.get? source = some c at hc
      change _ ∈ rest ∨ _
      by_cases hclaim : claim = ⟨source, c⟩
      · exact Or.inr (Or.inl (congrArg some hclaim))
      · by_cases hmem : (⟨source, c⟩ : Claim) ∈ rest
        · exact Or.inl hmem
        · exact Or.inr (Or.inr ⟨hc, by simp [hmem, Ne.symm hclaim]⟩)
    · rw [session_modifySession_of_ne hs] at hc ⊢
      exact hsame hc rfl rfl
  | appends _ hs ha _ hs' =>
    have hsessions := (hs'.trans (sessions_append ha)).trans hs
    exact hsame hc (congrArg Session.feeds (session_congr hsessions s))
      (congrArg Session.pending (session_congr hsessions s))
  | creates => exact hsame hc rfl rfl
  | joins hj =>
    obtain ⟨-, b₀, b₁, session, hstays, hopens, rfl, hnew, -, hpending, -⟩ := join_ok hj
    by_cases hs : s = b₀.sessions.size
    · rw [hs, hopens.session_new] at hc ⊢
      exact Or.inl (hnew source c hc).2
    · rw [hopens.session_of_ne hs] at hc ⊢
      exact hsame hc (hstays.session s).feeds_eq (hpending s)

end Turn

/-! ## Sessions of different groups -/

/-- All sessions are those of different groups, and each is fed by all partitions of one topic and by
nothing else. -/
structure ReadBy (topic : String) (b : Broker) : Prop where
  /-- the topic is there if anybody reads it -/
  known : 0 < b.sessions.size → b.topics.contains topic = true
  /-- no group has two sessions -/
  distinct : ∀ s < b.sessions.size, ∀ s' < b.sessions.size,
    (b.session s).group = (b.session s').group → s = s'
  /-- sessions are fed by the topic -/
  topic_eq : ∀ s source c, (b.session s).feeds.get? source = some c → source.topic = topic
  /-- and by all partitions of it -/
  all : ∀ s < b.sessions.size, ∀ source log, source.topic = topic → b.log? source = some log →
    ((b.session s).feeds.get? source).isSome = true

namespace ReadBy

theorem congr (h : b.ReadBy topic) (ht : b'.topics = b.topics) (hs : b'.sessions = b.sessions) :
    b'.ReadBy topic := by
  have hsession := session_congr hs
  have hlog := log?_congr ht
  refine ⟨?_, ?_, ?_, ?_⟩
  · rw [hs, ht]
    exact h.known
  · simp only [hs, hsession]
    exact h.distinct
  · simp only [hsession]
    exact h.topic_eq
  · simp only [hs, hsession, hlog]
    exact h.all

theorem stays (h : b.ReadBy topic) (hs : b.Stays b') : b'.ReadBy topic where
  known hpos := by
    rw [hs.topics_eq]
    exact h.known (hs.sessions_size ▸ hpos)
  distinct s hlt s' hlt' hg := by
    rw [hs.sessions_size] at hlt hlt'
    rw [(hs.session s).group_eq, (hs.session s').group_eq] at hg
    exact h.distinct s hlt s' hlt' hg
  topic_eq s source c hc := by
    rw [(hs.session s).feeds_eq] at hc
    exact h.topic_eq s source c hc
  all s hlt source log ht hlog := by
    rw [(hs.session s).feeds_eq]
    exact h.all s (hs.sessions_size ▸ hlt) source log ht (hs.log?_eq source ▸ hlog)

/-- A message that comes in makes no new partition. -/
theorem append {now : Int} {payload : ByteArray} {headers : Headers} {o : Offset}
    (h : b.ReadBy topic) (ha : b.append now source payload headers = .ok (o, b')) :
    b'.ReadBy topic := by
  have hsize := congrArg Array.size (sessions_append ha)
  have hsession := session_congr (sessions_append ha)
  refine ⟨fun hpos => contains_append ha (h.known (hsize ▸ hpos)), ?_, ?_, ?_⟩
  · simp only [hsize, hsession]
    exact h.distinct
  · simp only [hsession]
    exact h.topic_eq
  · intro s hlt source' log' ht hlog'
    obtain ⟨log, hlog, hlogs⟩ := log?_append ha
    rw [hsession]
    rw [hsize] at hlt
    rw [hlogs] at hlog'
    split at hlog'
    · rename_i hs
      exact h.all s hlt source' log ht (hs ▸ hlog)
    · exact h.all s hlt source' log' ht hlog'

/-- A new topic is not the one that is read. -/
theorem createTopic {topic' : String} (h : b.ReadBy topic)
    (hnew : topic' = topic → b.topics.contains topic' = false) (partitions : Nat) :
    (b.createTopic topic' partitions).ReadBy topic := by
  have hne : 0 < b.sessions.size → topic ≠ topic' := by
    rintro hpos rfl
    exact nomatch (h.known hpos).symm.trans (hnew rfl)
  refine ⟨?_, h.distinct, h.topic_eq, ?_⟩
  · intro hpos
    have hknown := h.known hpos
    rw [Table.contains] at hknown ⊢
    rwa [Broker.createTopic, Table.get?_insert_of_ne _ (hne hpos)]
  · intro s hlt source log ht hlog
    rw [log?_createTopic_of_ne (ht ▸ hne (Nat.zero_lt_of_lt hlt))] at hlog
    exact h.all s hlt source log ht hlog

/-- A join adds a session of a new group, as no session ends. -/
theorem join {cluster : ClusterSpec} {group : String} {s : SessionId} (h : b.ReadBy topic)
    (hj : b.join cluster group [topic] = (.ok s, b'))
    (hlive : ∀ s < b'.sessions.size, (b'.session s).live = true) : b'.ReadBy topic := by
  obtain ⟨hknown, b₀, b₁, session, hstays, hopens, rfl, hnew, hall, -, hended⟩ := join_ok hj
  have h₀ := h.stays hstays
  have hsize : (b₁.sessions.push session).size = b₀.sessions.size + 1 := by
    rw [Array.size_push, hopens.sessions_eq]
  have hold : ∀ {s}, s < b₀.sessions.size + 1 → s ≠ b₀.sessions.size → s < b₀.sessions.size :=
    fun hlt hne => Nat.lt_of_le_of_ne (Nat.le_of_lt_succ hlt) hne
  -- a session of the same group would have been ended
  have hother : ∀ s < b₀.sessions.size, (b₀.session s).group ≠ group := by
    intro s hlt hg
    have hlive' := hlive s (hsize ▸ Nat.lt_succ_of_lt hlt)
    rw [hopens.session_of_ne (Nat.ne_of_lt hlt)] at hlive'
    rw [hstays.sessions_size] at hlt
    obtain ⟨s', hlt', hdead⟩ := hended s hlt ((hstays.session s).live_of hlive')
      ((hstays.session s).group_eq ▸ hg)
    rw [← hstays.sessions_size] at hlt'
    have hlive' := hlive s' (hsize ▸ Nat.lt_succ_of_lt hlt')
    rw [hopens.session_of_ne (Nat.ne_of_lt hlt')] at hlive'
    exact nomatch hlive'.symm.trans hdead
  refine ⟨fun _ => ?_, ?_, ?_, ?_⟩
  · change b₁.topics.contains topic = true
    rw [hopens.topics_eq, hstays.topics_eq]
    exact hknown
  · intro s hlt s' hlt' hg
    rw [hsize] at hlt hlt'
    by_cases hs : s = b₀.sessions.size <;> by_cases hs' : s' = b₀.sessions.size
    · rw [hs, hs']
    · rw [hs, hopens.session_new, hopens.session_of_ne hs', hopens.group_eq] at hg
      exact absurd hg.symm (hother s' (hold hlt' hs'))
    · rw [hs', hopens.session_new, hopens.session_of_ne hs, hopens.group_eq] at hg
      exact absurd hg (hother s (hold hlt hs))
    · rw [hopens.session_of_ne hs, hopens.session_of_ne hs'] at hg
      exact h₀.distinct s (hold hlt hs) s' (hold hlt' hs') hg
  · intro s source c hc
    by_cases hs : s = b₀.sessions.size
    · rw [hs, hopens.session_new] at hc
      exact (hnew source c hc).1
    · rw [hopens.session_of_ne hs] at hc
      exact h₀.topic_eq s source c hc
  · intro s hlt source log ht hlog
    rw [hsize] at hlt
    rw [hopens.log?_eq] at hlog
    by_cases hs : s = b₀.sessions.size
    · rw [hs, hopens.session_new]
      exact hall source log ht (hstays.log?_eq source ▸ hlog)
    · rw [hopens.session_of_ne hs]
      exact h₀.all s (hold hlt hs) source log ht hlog

/-- **Turns.**  As long as no session ends, all sessions are those of different groups, and each is fed
by the whole topic. -/
theorem turn {claim? : Option Claim} (h : b.ReadBy topic) (ht : Turn topic b claim? b')
    (hlive : ∀ s < b'.sessions.size, (b'.session s).live = true) : b'.ReadBy topic := by
  cases ht with
  | stays hs => exact h.stays hs
  | @hands _ s _ hn =>
    have hs := stays_nextClaim b s
    rw [hn] at hs
    exact h.stays hs
  | appends ht hs ha ht' hs' => exact ((h.congr ht hs).append ha).congr ht' hs'
  | creates topic' partitions hnew => exact h.createTopic hnew partitions
  | joins hj => exact h.join hj hlive

end ReadBy

end ConsumerGroup.Broker
