import ConsumerGroup.Proofs.Broker.Channels
import ConsumerGroup.Proofs.Broker.Commits
import ConsumerGroup.Proofs.Broker.Windows
import Mathlib.Data.List.Pairwise

/-!
# Sessions and what they feed

* `Broker.Linked` — each channel is fed by one session for one partition; `Broker.Wired` — and the claims
  a session has to hand out are among those it feeds.
* `Broker.Stays` — nothing comes in: sessions end, and readers read.
* `Broker.Appends` — a message comes in at one log, and at the channels of all live claims on it.
* `Broker.Opens` — a session is set up, and each of its claims is to bring what the log holds from the
  offset on that the group has marked.
-/

namespace ConsumerGroup

/-- What may happen to a session after it has been set up. -/
structure Session.Stays (x y : Session) : Prop where
  /-- it is that of its group -/
  group_eq : y.group = x.group
  /-- it feeds the same channels -/
  feeds_eq : y.feeds = x.feeds
  /-- it does not come to life again -/
  live_of : y.live = true → x.live = true
  /-- no claim is added -/
  pending_sub : ∀ claim ∈ y.pending, claim ∈ x.pending

theorem Session.Stays.refl (x : Session) : x.Stays x := ⟨rfl, rfl, id, fun _ => id⟩

theorem Session.Stays.trans {x y z : Session} (h : x.Stays y) (h' : y.Stays z) : x.Stays z where
  group_eq := h'.group_eq.trans h.group_eq
  feeds_eq := h'.feeds_eq.trans h.feeds_eq
  live_of hl := h.live_of (h'.live_of hl)
  pending_sub claim hc := h.pending_sub claim (h'.pending_sub claim hc)

namespace Broker

variable {b b' b'' : Broker} {s : SessionId} {source : TopicPartition} {c : ChannelId} {m : Message}

theorem session_congr (h : b'.sessions = b.sessions) (s : SessionId) : b'.session s = b.session s := by
  rw [session, h, session]

theorem log?_congr (h : b'.topics = b.topics) (source : TopicPartition) :
    b'.log? source = b.log? source := by
  rw [log?, h, log?]

/-- A session that nobody knows feeds nothing. -/
theorem lt_size_of_feeds (h : (b.session s).feeds.get? source = some c) : s < b.sessions.size := by
  by_contra hs
  rw [session, Array.getD_eq_getD_getElem?, Array.getElem?_eq_none (Nat.le_of_not_lt hs)] at h
  cases h

/-- What the broker is made of does not depend on the order in which channels are told. -/
theorem foldl_keeps {β γ : Type} {f : Broker → β → Broker} (p : Broker → γ)
    (hf : ∀ b x, p (f b x) = p b) (xs : List β) (b : Broker) : p (xs.foldl f b) = p b := by
  induction xs generalizing b with
  | nil => rfl
  | cons x xs ih => exact (ih _).trans (hf b x)

theorem session_modifySession_self {s : SessionId} (hs : s < b.sessions.size)
    (f : Session → Session) : (b.modifySession s f).session s = f (b.session s) := by
  rw [session_eq (Array.getElem?_eq_getElem hs)]
  apply session_eq
  rw [modifySession, Array.getElem?_modify, if_pos rfl, Array.getElem?_eq_getElem hs, Option.map_some]

theorem session_modifySession_of_ne {s s' : SessionId} (hs : s' ≠ s) (f : Session → Session) :
    (b.modifySession s f).session s' = b.session s' := by
  simp [session, modifySession, Array.getElem?_modify, Ne.symm hs]

theorem sessions_foldl_closeFeed (feeds : List (TopicPartition × ChannelId)) (b : Broker) :
    (feeds.foldl (fun b feed => b.modifyChannel feed.2 Channel.closeFeed) b).sessions = b.sessions :=
  foldl_keeps (f := fun b (feed : TopicPartition × ChannelId) =>
    b.modifyChannel feed.2 Channel.closeFeed) Broker.sessions (fun _ _ => rfl) feeds b

/-! ## Nothing comes in -/

/-- What may happen to a broker without anything coming in and anybody joining. -/
structure Stays (b b' : Broker) : Prop where
  /-- logs do not change -/
  topics_eq : b'.topics = b.topics
  /-- no session is new -/
  sessions_size : b'.sessions.size = b.sessions.size
  /-- each may end -/
  session : ∀ s, (b.session s).Stays (b'.session s)
  /-- no channel is new -/
  channels_size : b'.channels.size = b.channels.size
  /-- nothing comes in at any -/
  channel : ∀ c, (b.channel c).Stays (b'.channel c)

namespace Stays

theorem of_eq (ht : b'.topics = b.topics) (hs : b'.sessions = b.sessions)
    (hc : b'.channels = b.channels) : b.Stays b' where
  topics_eq := ht
  sessions_size := congrArg Array.size hs
  session s := session_congr hs s ▸ .refl _
  channels_size := congrArg Array.size hc
  channel c := channel_congr hc c ▸ .refl _

theorem refl (b : Broker) : b.Stays b := of_eq rfl rfl rfl

theorem trans (h : b.Stays b') (h' : b'.Stays b'') : b.Stays b'' where
  topics_eq := h'.topics_eq.trans h.topics_eq
  sessions_size := h'.sessions_size.trans h.sessions_size
  session s := (h.session s).trans (h'.session s)
  channels_size := h'.channels_size.trans h.channels_size
  channel c := (h.channel c).trans (h'.channel c)

theorem modifyChannel (b : Broker) (c : ChannelId) {f : Channel → Channel}
    (hf : ∀ ch : Channel, ch.Stays (f ch)) : b.Stays (b.modifyChannel c f) where
  topics_eq := rfl
  sessions_size := rfl
  session s := .refl _
  channels_size := size_modifyChannel b c f
  channel c' := by
    by_cases hc : c' = c
    · subst hc
      by_cases hlt : c' < b.channels.size
      · rw [channel_modifyChannel_self hlt]
        exact hf _
      · have hnone : b.channels[c']? = none := Array.getElem?_eq_none (Nat.le_of_not_lt hlt)
        simp only [Broker.channel, Broker.modifyChannel, Array.getD_eq_getD_getElem?,
          Array.getElem?_modify, hnone, Option.map_none, if_true]
        exact .refl _
    · rw [channel_modifyChannel_of_ne b hc]
      exact .refl _

theorem modifySession (b : Broker) (s : SessionId) {f : Session → Session}
    (hf : (b.session s).Stays (f (b.session s))) : b.Stays (b.modifySession s f) where
  topics_eq := rfl
  sessions_size := Array.size_modify
  session s' := by
    rcases hs : b.sessions[s]? with _ | x
    · rw [modifySession_of_none hs]
      exact .refl _
    · by_cases h : s' = s
      · subst h
        rw [session_eq hs] at hf
        have hget : (b.modifySession s' f).session s' = f x := by
          simp [Broker.session, Broker.modifySession, Array.getElem?_modify, hs]
        rw [session_eq hs, hget]
        exact hf
      · have hget : (b.modifySession s f).session s' = b.session s' := by
          simp [Broker.session, Broker.modifySession, Array.getElem?_modify, Ne.symm h]
        rw [hget]
        exact .refl _
  channels_size := rfl
  channel c := .refl _

theorem foldl {β : Type} {f : Broker → β → Broker} (hf : ∀ (b : Broker) (x : β), b.Stays (f b x))
    (xs : List β) (b : Broker) : b.Stays (xs.foldl f b) := by
  induction xs generalizing b with
  | nil => exact refl b
  | cons x xs ih => exact (hf b x).trans (ih _)

theorem log?_eq (h : b.Stays b') (source : TopicPartition) : b'.log? source = b.log? source :=
  log?_congr h.topics_eq source

end Stays

theorem stays_finishSession (b : Broker) (s : SessionId) (how : SessionEnd) :
    b.Stays (b.finishSession s how) := by
  have hfold : b.Stays ((b.session s).feeds.entries.foldl
      (fun b feed => b.modifyChannel feed.2 Channel.closeFeed) b) :=
    .foldl (fun b (feed : TopicPartition × ChannelId) =>
      .modifyChannel b feed.2 Channel.stays_closeFeed) _ b
  exact hfold.trans (.modifySession _ s ⟨rfl, rfl, nofun, fun _ => id⟩)

theorem stays_closeGroup (b : Broker) (group : String) (how : SessionEnd) :
    b.Stays (b.closeGroup group how) := by
  rw [closeGroup]
  split
  · exact stays_finishSession b _ how
  · exact .refl b

theorem stays_dropSession (b : Broker) (s : SessionId) : b.Stays (b.dropSession s) := by
  have hfold : b.Stays ((b.session s).pending.foldl
      (fun b claim => b.modifyChannel claim.channel Channel.closeReader) b) :=
    .foldl (fun b (claim : Claim) =>
      .modifyChannel b claim.channel Channel.stays_closeReader) _ b
  exact hfold.trans (.modifySession _ s ⟨rfl, rfl, id, nofun⟩)

theorem stays_nextClaim (b : Broker) (s : SessionId) : b.Stays (b.nextClaim s).2 := by
  rcases hp : (b.session s).pending with _ | ⟨claim, rest⟩
  · rw [nextClaim]
    simp only [hp]
    rcases (b.session s).ending with _ | _ | error
    · exact .refl b
    · exact .refl b
    · exact .modifySession b s ⟨rfl, rfl, id, fun _ => id⟩
  · rw [nextClaim_of_pending hp]
    refine .modifySession b s ⟨rfl, rfl, id, ?_⟩
    intro claim' hc
    rw [hp]
    exact List.mem_cons_of_mem _ hc

theorem stays_mark (b : Broker) (group : String) (source : TopicPartition) (o : Offset) :
    b.Stays (b.mark group source o) := .of_eq rfl rfl rfl

/-! ## Claims to hand out -/

/-- What leaves the claims of a session alone leaves all claims alone. -/
theorem pending_modifySession (s s' : SessionId) {f : Session → Session}
    (hf : ∀ session, (f session).pending = session.pending) :
    ((b.modifySession s f).session s').pending = (b.session s').pending := by
  by_cases hs : s' = s
  · rw [hs]
    rcases hnone : b.sessions[s]? with _ | session
    · rw [modifySession_of_none hnone]
    · rw [session_modifySession_self (Array.getElem?_eq_some_iff.1 hnone).1, hf]
  · rw [session_modifySession_of_ne hs]

/-- A session that ends keeps the claims that it has to hand out. -/
theorem pending_closeGroup (b : Broker) (group : String) (how : SessionEnd) (s : SessionId) :
    ((b.closeGroup group how).session s).pending = (b.session s).pending := by
  rw [closeGroup]
  split
  · rename_i s' _
    have hsessions : ((b.session s').feeds.entries.foldl
        (fun b feed => b.modifyChannel feed.2 Channel.closeFeed) b).sessions = b.sessions :=
      sessions_foldl_closeFeed _ b
    rw [finishSession]
    refine (pending_modifySession s' s ?_).trans (congrArg Session.pending (session_congr hsessions s))
    exact fun _ => rfl
  · rfl

/-- A session that answers with no claim keeps the claims that it has to hand out. -/
theorem pending_nextClaim {s : SessionId} {answer : NextClaim} (h : b.nextClaim s = (answer, b'))
    (hne : ∀ claim, answer ≠ .claim claim) (s' : SessionId) :
    (b'.session s').pending = (b.session s').pending := by
  simp only [nextClaim] at h
  split at h
  · obtain ⟨rfl, -⟩ := Prod.mk.inj h
    exact absurd rfl (hne _)
  · obtain ⟨-, rfl⟩ := Prod.mk.inj h
    rfl
  · obtain ⟨-, rfl⟩ := Prod.mk.inj h
    rfl
  · obtain ⟨-, rfl⟩ := Prod.mk.inj h
    refine pending_modifySession s s' ?_
    exact fun _ => rfl

/-! ## Who feeds what -/

/-- Each channel is fed by one session for one partition. -/
structure Linked (b : Broker) : Prop where
  /-- the channels exist -/
  lt_size : ∀ s source c, (b.session s).feeds.get? source = some c → c < b.channels.size
  /-- no channel is fed twice -/
  inj : ∀ s s' source source' c, (b.session s).feeds.get? source = some c →
    (b.session s').feeds.get? source' = some c → s = s' ∧ source = source'

/-- Each channel is fed by one session for one partition, and the claims a session has to hand out are
among those it feeds. -/
structure Wired (b : Broker) : Prop extends b.Linked where
  /-- the claims to hand out are among those that are fed -/
  pending : ∀ s, ∀ claim ∈ (b.session s).pending,
    (b.session s).feeds.get? claim.source = some claim.channel

/-- Nobody has joined a broker that has just been made. -/
theorem feeds_empty (s : SessionId) (source : TopicPartition) (c : ChannelId) :
    (({} : Broker).session s).feeds.get? source ≠ some c := by
  have hnone : (({} : Broker).session s).feeds = ∅ := by simp [session]
  rw [hnone, Table.get?_empty]
  exact Option.some_ne_none c ∘ Eq.symm

theorem wired_empty : ({} : Broker).Wired where
  lt_size s source c hc := absurd hc (feeds_empty s source c)
  inj s _ source _ c hc := absurd hc (feeds_empty s source c)
  pending s claim hc := by
    have hnone : (({} : Broker).session s).pending = [] := by simp [session]
    rw [hnone] at hc
    cases hc

theorem Wired.stays (h : b.Wired) (hs : b.Stays b') : b'.Wired where
  pending s claim hc := by
    rw [(hs.session s).feeds_eq]
    exact h.pending s claim ((hs.session s).pending_sub claim hc)
  lt_size s source c hc := by
    rw [(hs.session s).feeds_eq] at hc
    exact hs.channels_size ▸ h.lt_size s source c hc
  inj s s' source source' c hc hc' := by
    rw [(hs.session s).feeds_eq] at hc
    rw [(hs.session s').feeds_eq] at hc'
    exact h.inj s s' source source' c hc hc'

theorem mem_feedsOf : c ∈ b.feedsOf source ↔
    ∃ s, (b.session s).live = true ∧ (b.session s).feeds.get? source = some c := by
  simp only [feedsOf, List.mem_filterMap, List.mem_filter, Array.mem_toList_iff]
  constructor
  · rintro ⟨x, ⟨hx, hl⟩, hf⟩
    obtain ⟨s, hs⟩ := Array.mem_iff_getElem?.1 hx
    exact ⟨s, by rwa [session_eq hs], by rwa [session_eq hs]⟩
  · rintro ⟨s, hl, hf⟩
    have hs : b.sessions[s]? = some (b.session s) := by
      have hlt := lt_size_of_feeds hf
      simp [session, hlt]
    exact ⟨_, ⟨Array.mem_of_getElem? hs, hl⟩, hf⟩

/-- No live claim is fed twice. -/
theorem Linked.nodup_feedsOf (h : b.Linked) (source : TopicPartition) : (b.feedsOf source).Nodup := by
  have hpair : b.sessions.toList.Pairwise fun x y => ∀ c, x.feeds.get? source = some c →
      ∀ c', y.feeds.get? source = some c' → c ≠ c' := by
    rw [List.pairwise_iff_getElem]
    rintro j k hj hk hjk c hc _ hc' rfl
    rw [Array.getElem_toList] at hc hc'
    have hsj : b.session j = b.sessions[j] := session_eq (Array.getElem?_eq_getElem hj)
    have hsk : b.session k = b.sessions[k] := session_eq (Array.getElem?_eq_getElem hk)
    exact Nat.ne_of_lt hjk (h.inj j k source source c (hsj ▸ hc) (hsk ▸ hc')).1
  exact List.pairwise_filterMap.2 (hpair.filter _)

/-! ## A message comes in -/

theorem channel_foldl_send (m : Message) {cs : List ChannelId} (hd : cs.Nodup) (b : Broker)
    (hlt : ∀ c ∈ cs, c < b.channels.size) (c : ChannelId) :
    (cs.foldl (fun b c => b.modifyChannel c (·.send m)) b).channel c =
      if c ∈ cs then (b.channel c).send m else b.channel c := by
  induction cs generalizing b with
  | nil => rfl
  | cons c' cs ih =>
    obtain ⟨hnot, hd⟩ := List.nodup_cons.1 hd
    rw [List.foldl_cons, ih hd _ fun c hc => by
      rw [size_modifyChannel]
      exact hlt c (List.mem_cons_of_mem _ hc)]
    by_cases hc : c = c'
    · subst hc
      rw [if_neg hnot, if_pos List.mem_cons_self, channel_modifyChannel_self (hlt c List.mem_cons_self)]
    · rw [channel_modifyChannel_of_ne b hc]
      simp only [List.mem_cons, hc, false_or]

/-- A log takes the place of one. -/
theorem log?_setLog {log log' : Array Message} (h : b.log? source = some log)
    (source' : TopicPartition) :
    (b.setLog source log').log? source' = if source' = source then some log' else b.log? source' := by
  obtain ⟨topic, p⟩ := source
  obtain ⟨topic', p'⟩ := source'
  simp only [log?] at h
  split at h
  · cases h
  · rename_i hp
    obtain ⟨logs, hlogs, hget⟩ := Option.bind_eq_some_iff.1 h
    simp only [log?, setLog, hlogs, Option.getD_some, TopicPartition.mk.injEq]
    by_cases ht : topic' = topic
    · subst ht
      rw [Table.get?_insert_self, Option.bind_some, hlogs, Option.bind_some]
      by_cases hpp : p' = p
      · subst hpp
        obtain ⟨hlt, -⟩ := List.getElem?_eq_some_iff.1 hget
        simp [hp, hlt]
      · by_cases hneg : p' < 0
        · simp [hneg, hpp]
        · have hne : p.toNat ≠ p'.toNat := by lia
          simp [hneg, hpp, List.getElem?_set_ne hne]
    · rw [Table.get?_insert_of_ne _ ht]
      simp [ht]

/-- Message `m` has come in at the log of a partition and at the live claims on it. -/
structure Appends (b b' : Broker) (source : TopicPartition) (m : Message) : Prop where
  /-- it is the last of its log -/
  log : ∃ log, b.log? source = some log ∧ m.offset = log.size ∧ b'.log? source = some (log.push m)
  /-- other logs do not change -/
  log_ne : ∀ source', source' ≠ source → b'.log? source' = b.log? source'
  /-- nor do sessions -/
  sessions_eq : b'.sessions = b.sessions
  /-- no channel is new -/
  channels_size : b'.channels.size = b.channels.size
  /-- it is sent to those that are fed -/
  channel : ∀ c, b'.channel c = if c ∈ b.feedsOf source then (b.channel c).send m else b.channel c

/-- A message that comes in is the last of its log, at the offset that is told. -/
theorem Linked.append_inv (h : b.Linked) {now : Int} {payload : ByteArray} {headers : Headers}
    {o : Offset} (ha : b.append now source payload headers = .ok (o, b')) :
    ∃ log, b.log? source = some log ∧ o = log.size ∧
      b.Appends b' source ⟨log.size, payload, headers, some now⟩ := by
  rw [append] at ha
  split at ha
  · cases ha
  · rename_i log hlog
    obtain ⟨ho, rfl⟩ := Prod.mk.inj (Except.ok.inj ha)
    have hkeeps : ∀ {γ : Type} (p : Broker → γ), (∀ b c (f : Channel → Channel),
        p (b.modifyChannel c f) = p b) → ∀ (cs : List ChannelId) (m : Message) (b : Broker),
        p (cs.foldl (fun b c => b.modifyChannel c (·.send m)) b) = p b :=
      fun p hp cs m b => foldl_keeps p (fun b c => hp b c _) cs b
    have hlt : ∀ c ∈ b.feedsOf source, c < b.channels.size := by
      intro c hc
      obtain ⟨s, -, hf⟩ := mem_feedsOf.1 hc
      exact h.lt_size s source c hf
    refine ⟨log, hlog, ho.symm, ⟨log, hlog, rfl, ?_⟩, ?_, ?_, ?_, ?_⟩
    · rw [hkeeps (fun b => b.log? source) fun _ _ _ => rfl, log?_setLog hlog, if_pos rfl]
    · intro source' hne
      rw [hkeeps (fun b => b.log? source') fun _ _ _ => rfl, log?_setLog hlog, if_neg hne]
    · rw [hkeeps Broker.sessions fun _ _ _ => rfl]
      rfl
    · rw [hkeeps (fun b => b.channels.size) fun b c f => size_modifyChannel b c f]
      rfl
    · intro c
      exact channel_foldl_send _ (h.nodup_feedsOf source) (b.setLog source _) hlt c

theorem Linked.publish_inv (h : b.Linked) (now : Int) (record : Record) :
    b.Stays (b.publish now record).2 ∨
      ∃ m, b.Appends (b.publish now record).2 ⟨record.topic, 0⟩ m := by
  rw [publish]
  split
  · exact Or.inl (.of_eq rfl rfl rfl)
  · dsimp only
    split
    · split
      · rename_i o b' ha
        have h' : ({ b with published := b.published.push record } : Broker).Linked :=
          ⟨h.lt_size, h.inj⟩
        obtain ⟨_, -, -, hm⟩ := h'.append_inv ha
        exact Or.inr ⟨_, hm.log, hm.log_ne, hm.sessions_eq, hm.channels_size, hm.channel⟩
      · exact Or.inl (.of_eq rfl rfl rfl)
    · exact Or.inl (.of_eq rfl rfl rfl)

theorem Wired.appends (h : b.Wired) (ha : b.Appends b' source m) : b'.Wired where
  pending s := by
    rw [session_congr ha.sessions_eq]
    exact h.pending s
  lt_size s source c hc := by
    rw [session_congr ha.sessions_eq] at hc
    exact ha.channels_size ▸ h.lt_size s source c hc
  inj s s' source source' c hc hc' := by
    rw [session_congr ha.sessions_eq] at hc hc'
    exact h.inj s s' source source' c hc hc'

/-! ## A session is set up -/

/-- A session of a group is being set up at a broker that was `b₀` before: each claim brings what the
log holds from the offset on that the group has marked. -/
structure Opens (b₀ : Broker) (group : String) (session : Session) (b : Broker) : Prop where
  /-- logs do not change -/
  topics_eq : b.topics = b₀.topics
  /-- the other sessions stay -/
  sessions_eq : b.sessions = b₀.sessions
  /-- no mark is made -/
  commits : b₀.Commits none b
  /-- the channels of other sessions stay -/
  size_le : b₀.channels.size ≤ b.channels.size
  /-- nothing happens to them -/
  channel_eq : ∀ c < b₀.channels.size, b.channel c = b₀.channel c
  /-- the session is one of the group -/
  group_eq : session.group = group
  /-- its claims are among those it feeds -/
  pending : ∀ claim ∈ session.pending, session.feeds.get? claim.source = some claim.channel
  /-- it feeds new channels, with what the log holds -/
  feeds : ∀ source c, session.feeds.get? source = some c →
    b₀.channels.size ≤ c ∧ c < b.channels.size ∧ ∃ log, b₀.log? source = some log ∧
      b.channel c = .ofBacklog claimCapacity
        (log.toList.filter fun m => b₀.startOffset group source ≤ m.offset)
  /-- and each for one partition -/
  inj : ∀ source source' c, session.feeds.get? source = some c →
    session.feeds.get? source' = some c → source = source'

theorem opens_start (b : Broker) (group : String) : b.Opens group { group } b where
  topics_eq := rfl
  sessions_eq := rfl
  commits := .refl b
  size_le := Nat.le_refl _
  channel_eq _ _ := rfl
  group_eq := rfl
  pending := nofun
  feeds := nofun
  inj := nofun

/-- What feeds each channel for one partition does so when a new channel is added. -/
theorem inj_insert {feeds : Table TopicPartition ChannelId} {new : ChannelId}
    (hinj : ∀ source source' c, feeds.get? source = some c → feeds.get? source' = some c →
      source = source')
    (hfresh : ∀ source, feeds.get? source ≠ some new) (source source₁ source₂ : TopicPartition)
    (c : ChannelId) (h₁ : (feeds.insert source new).get? source₁ = some c)
    (h₂ : (feeds.insert source new).get? source₂ = some c) : source₁ = source₂ := by
  by_cases hs₁ : source₁ = source <;> by_cases hs₂ : source₂ = source
  · rw [hs₁, hs₂]
  · rw [hs₁, Table.get?_insert_self] at h₁
    rw [Table.get?_insert_of_ne _ hs₂, ← Option.some.inj h₁] at h₂
    exact absurd h₂ (hfresh source₂)
  · rw [hs₂, Table.get?_insert_self] at h₂
    rw [Table.get?_insert_of_ne _ hs₁, ← Option.some.inj h₂] at h₁
    exact absurd h₁ (hfresh source₁)
  · rw [Table.get?_insert_of_ne _ hs₁] at h₁
    rw [Table.get?_insert_of_ne _ hs₂] at h₂
    exact hinj source₁ source₂ c h₁ h₂

/-- One more partition is claimed. -/
theorem Opens.claimPartition {b₀ : Broker} {group : String} {session : Session} {log : Array Message}
    (h : b₀.Opens group session b) (hlog : b₀.log? source = some log)
    (hnew : session.feeds.get? source = none) :
    b₀.Opens group (b.claimPartition session source log).1 (b.claimPartition session source log).2 ∧
      (b.claimPartition session source log).1.feeds = session.feeds.insert source b.channels.size := by
  let ch := Channel.ofBacklog claimCapacity
    (log.toList.filter fun m => b₀.startOffset group source ≤ m.offset)
  have hstart : b.startOffset session.group source = b₀.startOffset group source := by
    rw [startOffset, h.commits.committed_eq, h.group_eq, startOffset, Option.elim_none]
  have hclaim : b.claimPartition session source log =
      ({ session with
          pending := session.pending ++ [⟨source, b.channels.size⟩]
          feeds := session.feeds.insert source b.channels.size }, (b.openChannel ch).2) := by
    rw [Broker.claimPartition, hnew, hstart]
    rfl
  have hsize : (b.openChannel ch).2.channels.size = b.channels.size + 1 := Array.size_push _
  have hold : ∀ c < b.channels.size, (b.openChannel ch).2.channel c = b.channel c :=
    fun c hc => channel_openChannel_of_lt hc ch
  rw [hclaim]
  refine ⟨⟨h.topics_eq, h.sessions_eq, ⟨h.commits.committed_eq, h.commits.commitLog_eq⟩, ?_, ?_, h.group_eq, ?_, ?_, ?_⟩, rfl⟩
  · exact Nat.le_trans h.size_le (hsize ▸ Nat.le_succ _)
  · intro c hc
    rw [hold c (Nat.lt_of_lt_of_le hc h.size_le), h.channel_eq c hc]
  · intro claim hc
    rcases List.mem_append.1 hc with hc | hc
    · have hfeed := h.pending claim hc
      have hne : claim.source ≠ source := by
        intro heq
        rw [heq, hnew] at hfeed
        cases hfeed
      rw [Table.get?_insert_of_ne _ hne]
      exact hfeed
    · rw [List.mem_singleton.1 hc, Table.get?_insert_self]
  · intro source' c hc
    by_cases hs : source' = source
    · subst hs
      rw [Table.get?_insert_self] at hc
      obtain rfl := Option.some.inj hc
      exact ⟨h.size_le, hsize ▸ Nat.lt_succ_self _, log, hlog, channel_openChannel_self b ch⟩
    · rw [Table.get?_insert_of_ne _ hs] at hc
      obtain ⟨hle, hlt, log', hlog', hch⟩ := h.feeds source' c hc
      exact ⟨hle, hsize ▸ Nat.lt_succ_of_lt hlt, log', hlog', (hold c hlt).trans hch⟩
  · exact inj_insert h.inj (fun source' hc => Nat.lt_irrefl _ (h.feeds source' _ hc).2.1) source

/-- All partitions of a topic are claimed that was not claimed before. -/
theorem Opens.claimTopic {b₀ : Broker} {group : String} {session : Session}
    (h : b₀.Opens group session b) (topic : String)
    (hnew : ∀ source, source.topic = topic → session.feeds.get? source = none) :
    b₀.Opens group (b.claimTopic session topic).1 (b.claimTopic session topic).2 ∧
      ∀ source, source.topic ≠ topic →
        (b.claimTopic session topic).1.feeds.get? source = session.feeds.get? source := by
  have hfold : ∀ (partitions : List (Array Message × Nat)) (session : Session) (b : Broker),
      b₀.Opens group session b →
      (∀ p ∈ partitions, b₀.log? ⟨topic, p.2⟩ = some p.1 ∧ session.feeds.get? ⟨topic, p.2⟩ = none) →
      (partitions.map Prod.snd).Nodup →
      let r := partitions.foldl (fun x p => x.2.claimPartition x.1 ⟨topic, p.2⟩ p.1) (session, b)
      b₀.Opens group r.1 r.2 ∧
        ∀ source, source.topic ≠ topic → r.1.feeds.get? source = session.feeds.get? source := by
    intro partitions
    induction partitions with
    | nil => exact fun _ _ h _ _ => ⟨h, fun _ _ => rfl⟩
    | cons p partitions ih =>
      intro session b h hp hd
      obtain ⟨hlog, hnone⟩ := hp p List.mem_cons_self
      obtain ⟨hopens, hfeeds⟩ := h.claimPartition hlog hnone
      rw [List.map_cons, List.nodup_cons] at hd
      suffices hothers : ∀ p' ∈ partitions, b₀.log? ⟨topic, p'.2⟩ = some p'.1 ∧
          (b.claimPartition session ⟨topic, p.2⟩ p.1).1.feeds.get? ⟨topic, p'.2⟩ = none by
        obtain ⟨hall, hkept⟩ := ih _ _ hopens hothers hd.2
        refine ⟨hall, fun source ht => (hkept source ht).trans ?_⟩
        have hne : source ≠ ⟨topic, p.2⟩ := fun heq => ht (congrArg TopicPartition.topic heq)
        exact (congrArg (Table.get? · source) hfeeds).trans (Table.get?_insert_of_ne _ hne _)
      intro p' hp'
      obtain ⟨hlog', hnone'⟩ := hp p' (List.mem_cons_of_mem _ hp')
      refine ⟨hlog', ?_⟩
      have hne : (⟨topic, p'.2⟩ : TopicPartition) ≠ ⟨topic, p.2⟩ := by
        intro heq
        have hpp : (p'.2 : Int) = p.2 := (TopicPartition.mk.inj heq).2
        exact hd.1 (List.mem_map.2 ⟨p', hp', Int.ofNat_inj.1 hpp⟩)
      have hget := congrArg (Table.get? · (⟨topic, p'.2⟩ : TopicPartition)) hfeeds
      exact hget.trans ((Table.get?_insert_of_ne _ hne _).trans hnone')
  refine hfold _ session b h (fun p hp => ⟨?_, hnew _ rfl⟩) ?_
  · have hget := List.mem_zipIdx_iff_getElem?.1 hp
    rw [h.topics_eq] at hget
    rw [log?, if_neg (by simp)]
    rcases ht : b₀.topics.get? topic with _ | logs
    · rw [ht] at hget
      simp at hget
    · rw [ht] at hget
      simpa [ht] using hget
  · rw [List.zipIdx_map_snd]
    exact List.nodup_range'

/-- All partitions of different topics are claimed, one topic after the other. -/
theorem Opens.claimTopics {b₀ : Broker} {group : String} {session : Session}
    (h : b₀.Opens group session b) {topics : List String} (hd : topics.Nodup)
    (hnew : ∀ source, source.topic ∈ topics → session.feeds.get? source = none) :
    b₀.Opens group
      (topics.foldl (fun (session, b) topic => Broker.claimTopic b session topic) (session, b)).1
      (topics.foldl (fun (session, b) topic => Broker.claimTopic b session topic) (session, b)).2 := by
  induction topics generalizing session b with
  | nil => exact h
  | cons topic topics ih =>
    obtain ⟨hnot, hd⟩ := List.nodup_cons.1 hd
    obtain ⟨hopens, hkept⟩ := h.claimTopic topic fun source ht => hnew source (ht ▸ List.mem_cons_self)
    refine ih hopens hd fun source hmem => ?_
    have hne : source.topic ≠ topic := fun ht => hnot (ht ▸ hmem)
    exact (hkept source hne).trans (hnew source (List.mem_cons_of_mem _ hmem))

/-- What a join for different topics comes to: nothing, or a new session. -/
theorem join_inv (b : Broker) (cluster : ClusterSpec) (group : String) {topics : List String}
    (hd : topics.Nodup) :
    (∃ error b', b.join cluster group topics = (.error error, b') ∧ b.Stays b') ∨
    ∃ b₀ b₁ session, b.Stays b₀ ∧ b.Commits none b₀ ∧ b₀.Opens group session b₁ ∧
      b.join cluster group topics =
        (.ok b.sessions.size, { b₁ with sessions := b₁.sessions.push session }) := by
  rcases join_cases b cluster group topics with
    ⟨error, hj⟩ | ⟨-, -, b₁, b₂, session, hb, hf, hj⟩
  · exact Or.inl ⟨_, _, hj, .of_eq rfl rfl rfl⟩
  · have hnoted : b.Stays b₁ := by
      rw [hb]
      exact .of_eq rfl rfl rfl
    have hquiet : b.Commits none b₁ := by
      rw [hb]
      exact ⟨rfl, rfl⟩
    have hended : b.Stays (b₁.endSession group) := hnoted.trans (stays_closeGroup b₁ group .ended)
    have hopens := (opens_start (b₁.endSession group) group).claimTopics hd fun _ _ => rfl
    rw [hf] at hopens
    refine Or.inr ⟨_, _, _, hended, hquiet.after (commits_closeGroup b₁ group .ended), hopens, ?_⟩
    rw [hj, hopens.sessions_eq, hended.sessions_size]

end Broker

end ConsumerGroup
