import ConsumerGroup.Proofs.Broker.Sessions

/-!
# What the claims of a group cover

The claims of a group on one partition are windows on its log, each from the offset on that the group
had marked when it joined.

* `Broker.Logged` — the partition has a log if any claim is on it, and its messages are numbered.
* `Broker.NothingLost` — no claim of the group on the partition has lost a message for want of room.
* `Broker.Covers` — each of these claims is a window on the log, and all below its base is done.
* `Broker.Serves` — all that together; `Broker.Change` is what a step may come to, and keeps it.
-/

namespace ConsumerGroup.Broker

variable {b b' : Broker} {group : String} {source : TopicPartition} {done : Nat → Prop}

/-- The log of a partition is one, and there is one if a claim is on it. -/
structure Logged (b : Broker) (source : TopicPartition) : Prop where
  /-- its messages are numbered -/
  isLog : ∀ log, b.log? source = some log → IsLog log.toList
  /-- there is one if a claim is on it -/
  known : ∀ s c, (b.session s).feeds.get? source = some c → ∃ log, b.log? source = some log

/-- No claim of a group on a partition has lost a message for want of room. -/
def NothingLost (b : Broker) (group : String) (source : TopicPartition) : Prop :=
  ∀ s c, (b.session s).group = group → (b.session s).feeds.get? source = some c →
    (b.channel c).lost = []

theorem nothingLost_of_all (h : b.channels.toList.all (·.lost.isEmpty) = true) :
    b.NothingLost group source := by
  intro s c _ _
  rcases hc : b.channels[c]? with _ | ch
  · simp [channel, hc]
  · have hall := List.all_eq_true.1 h ch (Array.mem_toList_iff.2 (Array.mem_of_getElem? hc))
    simpa [channel, hc] using hall

/-- The claims of a group on a partition are windows on its log, and all below their bases is done. -/
def Covers (b : Broker) (group : String) (source : TopicPartition) (done : Nat → Prop) : Prop :=
  ∀ s c, (b.session s).group = group → (b.session s).feeds.get? source = some c →
    ∃ log base, b.log? source = some log ∧
      (b.channel c).Window log.toList base (b.session s).live ∧ ∀ o < base, done o

/-- What a group has marked on a partition lies in the log or right behind it, and all below is done. -/
def MarkedDone (b : Broker) (group : String) (source : TopicPartition) (done : Nat → Prop) : Prop :=
  ∀ o, b.committed.get? (group, source) = some o →
    (∀ log, b.log? source = some log → o ≤ log.size) ∧ ∀ k : Nat, (k : Offset) < o → done k

theorem Covers.mono {done' : Nat → Prop} (h : b.Covers group source done)
    (hdone : ∀ o, done o → done' o) : b.Covers group source done' := by
  intro s c hg hc
  obtain ⟨log, base, hlog, hw, hbelow⟩ := h s c hg hc
  exact ⟨log, base, hlog, hw, fun o ho => hdone o (hbelow o ho)⟩

theorem logged_empty (source : TopicPartition) : ({} : Broker).Logged source where
  isLog log hlog := by
    have hnone : ({} : Broker).log? source = none := by simp [log?]
    rw [hnone] at hlog
    cases hlog
  known s c hc := absurd hc (feeds_empty s source c)

/-! ## Nothing comes in -/

theorem Logged.stays (h : b.Logged source) (hs : b.Stays b') : b'.Logged source where
  isLog log hlog := h.isLog log (hs.log?_eq source ▸ hlog)
  known s c hc := by
    rw [(hs.session s).feeds_eq] at hc
    rw [hs.log?_eq]
    exact h.known s c hc

theorem NothingLost.of_stays (h : b'.NothingLost group source) (hs : b.Stays b') :
    b.NothingLost group source := by
  intro s c hg hc
  rw [← (hs.session s).group_eq] at hg
  rw [← (hs.session s).feeds_eq] at hc
  rw [← (hs.channel c).lost_eq]
  exact h s c hg hc

theorem Covers.stays (h : b.Covers group source done) (hs : b.Stays b') :
    b'.Covers group source done := by
  intro s c hg hc
  rw [(hs.session s).group_eq] at hg
  rw [(hs.session s).feeds_eq] at hc
  obtain ⟨log, base, hlog, hw, hbelow⟩ := h s c hg hc
  exact ⟨log, base, hs.log?_eq source ▸ hlog, hw.stays (hs.channel c) (hs.session s).live_of, hbelow⟩

/-! ## A topic is made -/

theorem log?_createTopic_of_ne {topic : String} (h : source.topic ≠ topic) (partitions : Nat) :
    (b.createTopic topic partitions).log? source = b.log? source := by
  simp only [log?, createTopic, Table.get?_insert_of_ne _ h]

/-- A new topic has no messages. -/
theorem eq_of_log?_createTopic {log : Array Message} {partitions : Nat}
    (h : (b.createTopic source.topic partitions).log? source = some log) : log = #[] := by
  simp only [log?, createTopic, Table.get?_insert_self, Option.bind_some] at h
  split at h
  · cases h
  · obtain ⟨hlt, heq⟩ := List.getElem?_eq_some_iff.1 h
    rw [← heq, List.getElem_replicate]

theorem log?_eq_none (h : b.topics.contains source.topic = false) : b.log? source = none := by
  rw [Table.contains, Option.isSome_eq_false_iff, Option.isNone_iff_eq_none] at h
  simp [log?, h]

theorem Logged.createTopic (h : b.Logged source) (topic : String) (partitions : Nat)
    (hnew : topic = source.topic → b.topics.contains topic = false) :
    (b.createTopic topic partitions).Logged source := by
  by_cases ht : source.topic = topic
  · have hnone := log?_eq_none (ht ▸ hnew ht.symm)
    subst ht
    refine ⟨?_, ?_⟩
    · intro log hlog
      rw [eq_of_log?_createTopic hlog]
      exact nofun
    · intro s c hc
      obtain ⟨log, hlog⟩ := h.known s c hc
      exact nomatch hnone.symm.trans hlog
  · refine ⟨fun log hlog => h.isLog log ?_, ?_⟩
    · rwa [log?_createTopic_of_ne ht] at hlog
    · intro s c hc
      rw [log?_createTopic_of_ne ht]
      exact h.known s c hc

theorem Covers.createTopic (h : b.Covers group source done) (hl : b.Logged source) (topic : String)
    (partitions : Nat) (hnew : topic = source.topic → b.topics.contains topic = false) :
    (b.createTopic topic partitions).Covers group source done := by
  intro s c hg hc
  by_cases ht : source.topic = topic
  · obtain ⟨log, hlog⟩ := hl.known s c hc
    exact nomatch (log?_eq_none (ht ▸ hnew ht.symm)).symm.trans hlog
  · rw [log?_createTopic_of_ne ht]
    exact h s c hg hc

/-! ## A message comes in -/

theorem Logged.appends {source' : TopicPartition} {m : Message} (h : b.Logged source)
    (ha : b.Appends b' source' m) : b'.Logged source := by
  obtain ⟨log', hlog', hoff, hpush⟩ := ha.log
  refine ⟨?_, ?_⟩
  · intro log hlog
    by_cases hs : source = source'
    · subst hs
      obtain rfl := Option.some.inj (hlog.symm.trans hpush)
      rw [Array.toList_push]
      exact (h.isLog log' hlog').append (by rw [hoff, Array.length_toList])
    · exact h.isLog log (ha.log_ne source hs ▸ hlog)
  · intro s c hc
    rw [session_congr ha.sessions_eq] at hc
    by_cases hs : source = source'
    · exact ⟨_, hs ▸ hpush⟩
    · rw [ha.log_ne source hs]
      exact h.known s c hc

theorem NothingLost.of_appends {source' : TopicPartition} {m : Message}
    (h : b'.NothingLost group source) (ha : b.Appends b' source' m) : b.NothingLost group source := by
  intro s c hg hc
  rw [← session_congr ha.sessions_eq] at hg hc
  have hlost := h s c hg hc
  rw [ha.channel] at hlost
  split at hlost
  · exact Channel.lost_of_send m hlost
  · exact hlost

theorem Covers.appends {source' : TopicPartition} {m : Message} (h : b.Covers group source done)
    (hw : b.Wired) (ha : b.Appends b' source' m) (hlost : b'.NothingLost group source) :
    b'.Covers group source done := by
  intro s c hg hc
  have hlost' := hlost s c hg hc
  rw [session_congr ha.sessions_eq] at hg hc ⊢
  rw [ha.channel] at hlost' ⊢
  obtain ⟨log, base, hlog, hwindow, hbelow⟩ := h s c hg hc
  by_cases hs : source = source'
  · subst hs
    obtain ⟨log', hlog', -, hpush⟩ := ha.log
    obtain rfl := Option.some.inj (hlog.symm.trans hlog')
    refine ⟨_, base, hpush, ?_, hbelow⟩
    rw [Array.toList_push]
    -- the message is sent to the claim exactly when its session is live
    rcases hlive : (b.session s).live with _ | _
    · have hnot : c ∉ b.feedsOf source := by
        intro hmem
        obtain ⟨s', hlive', hc'⟩ := mem_feedsOf.1 hmem
        obtain ⟨rfl, -⟩ := hw.inj s s' source source c hc hc'
        exact nomatch hlive.symm.trans hlive'
      rw [if_neg hnot]
      exact (hlive ▸ hwindow).unsent m
    · have hmem : c ∈ b.feedsOf source := mem_feedsOf.2 ⟨s, hlive, hc⟩
      rw [if_pos hmem] at hlost' ⊢
      exact (hlive ▸ hwindow).sent m hlost'
  · have hnot : c ∉ b.feedsOf source' := by
      intro hmem
      obtain ⟨s', -, hc'⟩ := mem_feedsOf.1 hmem
      exact hs (hw.inj s s' source source' c hc hc').2
    rw [if_neg hnot]
    exact ⟨log, base, (ha.log_ne source hs).trans hlog, hwindow, hbelow⟩

/-! ## A session is opened -/

section

variable {b₀ b₁ : Broker} {group' : String} {session : Session}

theorem session_push (b : Broker) (session : Session) (s : SessionId) :
    ({ b with sessions := b.sessions.push session } : Broker).session s =
      if s = b.sessions.size then session else b.session s := by
  simp only [Broker.session, Array.getD_eq_getD_getElem?, Array.getElem?_push]
  split <;> rfl

theorem Opens.log?_eq (h : b₀.Opens group' session b₁) (source : TopicPartition) :
    ({ b₁ with sessions := b₁.sessions.push session } : Broker).log? source = b₀.log? source := by
  rw [log?, h.topics_eq, log?]

/-- The sessions there were keep their channels. -/
theorem Opens.session_of_ne (h : b₀.Opens group' session b₁) {s : SessionId}
    (hs : s ≠ b₀.sessions.size) :
    ({ b₁ with sessions := b₁.sessions.push session } : Broker).session s = b₀.session s := by
  rw [session_push, h.sessions_eq, if_neg hs, session_congr h.sessions_eq]

theorem Opens.session_new (h : b₀.Opens group' session b₁) :
    ({ b₁ with sessions := b₁.sessions.push session } : Broker).session b₀.sessions.size = session := by
  rw [session_push, h.sessions_eq, if_pos rfl]

/-- A session that feeds new channels joins those there were. -/
theorem Linked.push (h : b₀.Linked) (hsessions : b₁.sessions = b₀.sessions)
    (hsize : b₀.channels.size ≤ b₁.channels.size)
    (hnew : ∀ source c, session.feeds.get? source = some c →
      b₀.channels.size ≤ c ∧ c < b₁.channels.size)
    (hinj : ∀ source source' c, session.feeds.get? source = some c →
      session.feeds.get? source' = some c → source = source') :
    ({ b₁ with sessions := b₁.sessions.push session } : Broker).Linked := by
  have hsession : ∀ s, ({ b₁ with sessions := b₁.sessions.push session } : Broker).session s =
      if s = b₀.sessions.size then session else b₀.session s := by
    intro s
    rw [session_push, hsessions, session_congr hsessions]
  -- the channels of the new session are new
  have hne : ∀ s source source' c, (b₀.session s).feeds.get? source = some c →
      session.feeds.get? source' ≠ some c :=
    fun s source source' c hold hc =>
      Nat.not_le_of_lt (h.lt_size s source c hold) (hnew source' c hc).1
  refine ⟨fun s source c hc => ?_, fun s s' source source' c hc hc' => ?_⟩
  · rw [hsession] at hc
    split at hc
    · exact (hnew source c hc).2
    · exact Nat.lt_of_lt_of_le (h.lt_size s source c hc) hsize
  · rw [hsession] at hc hc'
    split at hc <;> split at hc'
    · rename_i hs hs'
      exact ⟨hs.trans hs'.symm, hinj source source' c hc hc'⟩
    · exact absurd hc (hne s' source' source c hc')
    · exact absurd hc' (hne s source source' c hc)
    · exact h.inj s s' source source' c hc hc'

theorem Wired.opens (hw : b₀.Wired) (h : b₀.Opens group' session b₁) :
    ({ b₁ with sessions := b₁.sessions.push session } : Broker).Wired where
  toLinked := hw.toLinked.push h.sessions_eq h.size_le
    (fun source c hc => ⟨(h.feeds source c hc).1, (h.feeds source c hc).2.1⟩) h.inj
  pending s claim hc := by
    by_cases hs : s = b₀.sessions.size
    · subst hs
      rw [h.session_new] at hc ⊢
      exact h.pending claim hc
    · rw [h.session_of_ne hs] at hc ⊢
      exact hw.pending s claim hc
theorem Logged.opens (hl : b₀.Logged source) (h : b₀.Opens group' session b₁) :
    ({ b₁ with sessions := b₁.sessions.push session } : Broker).Logged source where
  isLog log hlog := hl.isLog log (h.log?_eq source ▸ hlog)
  known s c hc := by
    rw [h.log?_eq]
    by_cases hs : s = b₀.sessions.size
    · subst hs
      rw [h.session_new] at hc
      obtain ⟨-, -, log, hlog, -⟩ := h.feeds source c hc
      exact ⟨log, hlog⟩
    · rw [h.session_of_ne hs] at hc
      exact hl.known s c hc

theorem NothingLost.of_opens (hw : b₀.Wired) (h : b₀.Opens group' session b₁)
    (hlost : ({ b₁ with sessions := b₁.sessions.push session } : Broker).NothingLost group source) :
    b₀.NothingLost group source := by
  intro s c hg hc
  have hs : s ≠ b₀.sessions.size := Nat.ne_of_lt (lt_size_of_feeds hc)
  rw [← h.channel_eq c (hw.lt_size s source c hc)]
  refine hlost s c ?_ ?_
  · rw [h.session_of_ne hs]
    exact hg
  · rw [h.session_of_ne hs]
    exact hc

/-- The claims of a new session cover what the group has not marked. -/
theorem Covers.opens (hcov : b₀.Covers group source done) (hw : b₀.Wired) (hl : b₀.Logged source)
    (h : b₀.Opens group' session b₁) (hmarked : b₀.MarkedDone group source done)
    (hlost : ({ b₁ with sessions := b₁.sessions.push session } : Broker).NothingLost group source) :
    ({ b₁ with sessions := b₁.sessions.push session } : Broker).Covers group source done := by
  intro s c hg hc
  have hlost' := hlost s c hg hc
  rw [h.log?_eq]
  by_cases hs : s = b₀.sessions.size
  · subst hs
    rw [h.session_new] at hg hc ⊢
    obtain ⟨-, -, log, hlog, hch⟩ := h.feeds source c hc
    obtain rfl : group' = group := h.group_eq.symm.trans hg
    -- the base is the marked offset, or the beginning of the log
    have hstart : b₀.startOffset group' source ≤ log.size ∧
        ∀ k : Nat, (k : Offset) < b₀.startOffset group' source → done k := by
      rw [startOffset]
      rcases ho : b₀.committed.get? (group', source) with _ | o
      · refine ⟨Int.natCast_nonneg _, ?_⟩
        intro k hk
        exact absurd hk (Int.not_lt.2 (Int.natCast_nonneg k))
      · exact ⟨(hmarked o ho).1 log hlog, (hmarked o ho).2⟩
    obtain ⟨hle, hbelow⟩ := hstart
    rw [(hl.isLog log hlog).filter_eq_drop] at hch
    change (b₁.channel c).lost = [] at hlost'
    change ∃ log base, _ ∧ (b₁.channel c).Window _ _ _ ∧ _
    rw [hch] at hlost' ⊢
    refine ⟨log, _, hlog, Channel.window_ofBacklog ?_ hlost' _, fun k hk => hbelow k ?_⟩
    · rw [Array.length_toList]
      lia
    · lia
  · rw [h.session_of_ne hs] at hg hc ⊢
    obtain ⟨log, base, hlog, hwindow, hbelow⟩ := hcov s c hg hc
    refine ⟨log, base, hlog, ?_, hbelow⟩
    change (b₁.channel c).Window _ _ _
    rw [h.channel_eq c (hw.lt_size s source c hc)]
    exact hwindow

end

/-! ## All together -/

/-- What always holds of a broker that serves a group on a partition. -/
structure Serves (b : Broker) (group : String) (source : TopicPartition) (done : Nat → Prop) :
    Prop where
  /-- each channel is fed by one session -/
  wired : b.Wired
  /-- claims are on a log -/
  logged : b.Logged source
  /-- and cover what is not done -/
  covers : b.NothingLost group source → b.Covers group source done

namespace Serves

theorem mono {done' : Nat → Prop} (h : b.Serves group source done) (hdone : ∀ o, done o → done' o) :
    b.Serves group source done' :=
  ⟨h.wired, h.logged, fun hlost => (h.covers hlost).mono hdone⟩

theorem stays (h : b.Serves group source done) (hs : b.Stays b') : b'.Serves group source done where
  wired := h.wired.stays hs
  logged := h.logged.stays hs
  covers hlost := (h.covers (hlost.of_stays hs)).stays hs

theorem createTopic (h : b.Serves group source done) (topic : String) (partitions : Nat)
    (hnew : topic = source.topic → b.topics.contains topic = false) :
    (b.createTopic topic partitions).Serves group source done where
  wired := ⟨⟨h.wired.lt_size, h.wired.inj⟩, h.wired.pending⟩
  logged := h.logged.createTopic topic partitions hnew
  covers hlost := (h.covers hlost).createTopic h.logged topic partitions hnew

theorem appends {source' : TopicPartition} {m : Message} (h : b.Serves group source done)
    (ha : b.Appends b' source' m) : b'.Serves group source done where
  wired := h.wired.appends ha
  logged := h.logged.appends ha
  covers hlost := (h.covers (hlost.of_appends ha)).appends h.wired ha hlost

theorem opens {b₀ b₁ : Broker} {group' : String} {session : Session}
    (h : b₀.Serves group source done) (ho : b₀.Opens group' session b₁)
    (hmarked : b₀.NothingLost group source → b₀.MarkedDone group source done) :
    ({ b₁ with sessions := b₁.sessions.push session } : Broker).Serves group source done where
  wired := h.wired.opens ho
  logged := h.logged.opens ho
  covers hlost := by
    have hlost₀ := NothingLost.of_opens h.wired ho hlost
    exact (h.covers hlost₀).opens h.wired h.logged ho (hmarked hlost₀) hlost

end Serves

/-- Sessions are added, and those there were are of their groups and feed their channels. -/
structure Extends (b b' : Broker) : Prop where
  /-- sessions stay -/
  size_le : b.sessions.size ≤ b'.sessions.size
  /-- they are of their groups -/
  group_eq : ∀ s < b.sessions.size, (b'.session s).group = (b.session s).group
  /-- they feed what they fed -/
  feeds_eq : ∀ s < b.sessions.size, (b'.session s).feeds = (b.session s).feeds

namespace Extends

theorem trans {b'' : Broker} (h : b.Extends b') (h' : b'.Extends b'') : b.Extends b'' where
  size_le := Nat.le_trans h.size_le h'.size_le
  group_eq s hs := (h'.group_eq s (Nat.lt_of_lt_of_le hs h.size_le)).trans (h.group_eq s hs)
  feeds_eq s hs := (h'.feeds_eq s (Nat.lt_of_lt_of_le hs h.size_le)).trans (h.feeds_eq s hs)

theorem of_stays (h : b.Stays b') : b.Extends b' where
  size_le := Nat.le_of_eq h.sessions_size.symm
  group_eq s _ := (h.session s).group_eq
  feeds_eq s _ := (h.session s).feeds_eq

theorem of_sessions_eq (h : b'.sessions = b.sessions) : b.Extends b' where
  size_le := Nat.le_of_eq (congrArg Array.size h.symm)
  group_eq s _ := congrArg Session.group (session_congr h s)
  feeds_eq s _ := congrArg Session.feeds (session_congr h s)

theorem of_opens {b₀ b₁ : Broker} {group' : String} {session : Session}
    (h : b₀.Opens group' session b₁) :
    b₀.Extends { b₁ with sessions := b₁.sessions.push session } where
  size_le := by
    rw [Array.size_push, h.sessions_eq]
    exact Nat.le_succ _
  group_eq s hs := by rw [h.session_of_ne (Nat.ne_of_lt hs)]
  feeds_eq s hs := by rw [h.session_of_ne (Nat.ne_of_lt hs)]

end Extends

/-- What one step may come to for a broker that serves a partition.  Marks may come after it. -/
inductive Change (source : TopicPartition) (b : Broker) : Broker → Prop where
  /-- nothing comes in -/
  | stays {b' : Broker} : b.Stays b' → Change source b b'
  /-- a message comes in, and nothing after it -/
  | appends {b₁ b' : Broker} {source' : TopicPartition} {m : Message} : b.Appends b₁ source' m →
      b₁.Stays b' → Change source b b'
  /-- a topic is made that was not there, if it is that of the partition -/
  | creates (topic : String) (partitions : Nat) :
      (topic = source.topic → b.topics.contains topic = false) →
      Change source b (b.createTopic topic partitions)
  /-- a session is opened; before that nothing comes in, and nothing is marked -/
  | opens {b₀ b₁ : Broker} {group' : String} {session : Session} : b.Stays b₀ → b.Commits none b₀ →
      b₀.Opens group' session b₁ →
      Change source b { b₁ with sessions := b₁.sessions.push session }

namespace Change

/-- What the group has marked is taken to be done. -/
theorem serves (h : Change source b b')
    (hmarked : b.NothingLost group source → b.MarkedDone group source done)
    (hserves : b.Serves group source done) : b'.Serves group source done := by
  cases h with
  | stays h => exact hserves.stays h
  | appends h h' => exact (hserves.appends h).stays h'
  | creates topic partitions hnew => exact hserves.createTopic topic partitions hnew
  | opens h hcommits ho =>
    apply (hserves.stays h).opens ho
    intro hlost o hoff
    rw [h.log?_eq]
    rw [hcommits.committed_eq, Option.elim_none] at hoff
    exact hmarked (hlost.of_stays h) o hoff

theorem sessions (h : Change source b b') : b.Extends b' := by
  cases h with
  | stays h => exact .of_stays h
  | appends h h' => exact (Extends.of_sessions_eq h.sessions_eq).trans (.of_stays h')
  | creates => exact .of_sessions_eq rfl
  | opens h _ ho => exact (Extends.of_stays h).trans (.of_opens ho)

/-- **Joins.**  A join for one topic changes the broker so. -/
theorem join {cluster : ClusterSpec} {group' topic : String} {answer : Except BrokerError SessionId}
    (h : b.join cluster group' [topic] = (answer, b')) : Change source b b' := by
  rcases b.join_inv cluster group' (List.nodup_singleton topic) with ⟨error, b₁, heq, hstays⟩ |
    ⟨b₀, b₁, session, hstays, hcommits, hopens, heq⟩
  · obtain ⟨-, rfl⟩ := Prod.mk.inj (h.symm.trans heq)
    exact .stays hstays
  · obtain ⟨-, rfl⟩ := Prod.mk.inj (h.symm.trans heq)
    exact .opens hstays hcommits hopens

end Change

section

variable {cluster : ClusterSpec} {topic : String}

/-- A join that succeeds opens one session of its group. -/
theorem session_of_join {s : SessionId} (h : b.join cluster group [topic] = (.ok s, b')) :
    s = b.sessions.size ∧ b'.sessions.size = b.sessions.size + 1 ∧ (b'.session s).group = group := by
  rcases b.join_inv cluster group (List.nodup_singleton topic) with ⟨error, b₁, heq, -⟩ |
    ⟨b₀, b₁, session, hstays, -, hopens, heq⟩
  · exact nomatch (Prod.mk.inj (h.symm.trans heq)).1
  · obtain ⟨hs, rfl⟩ := Prod.mk.inj (h.symm.trans heq)
    obtain rfl := Except.ok.inj hs
    rw [← hstays.sessions_size, hopens.session_new, Array.size_push, hopens.sessions_eq]
    exact ⟨rfl, rfl, hopens.group_eq⟩

/-- A join that fails opens none. -/
theorem stays_of_join {error : BrokerError}
    (h : b.join cluster group [topic] = (.error error, b')) : b.Stays b' := by
  rcases b.join_inv cluster group (List.nodup_singleton topic) with ⟨_, b₁, heq, hstays⟩ | ⟨_, _, _, -, -, -, heq⟩
  · obtain ⟨-, rfl⟩ := Prod.mk.inj (h.symm.trans heq)
    exact hstays
  · exact nomatch (Prod.mk.inj (h.symm.trans heq)).1

end

end ConsumerGroup.Broker
