import ConsumerGroup.Broker.Basic
import Mathlib.Data.List.Nodup
import Mathlib.Data.List.Perm.Basic

/-!
# The channels of a broker

Nothing a broker does takes a message out of a channel; only the reader of the channel does that.

* `Channel.Grows`, `Broker.Grows` — messages come in behind those that are there, and what was lost
  stays lost.  All that a broker does is of this kind, up to the closing of reading ends.
* `Broker.Owned` — the channels of the claims that a broker has to hand out, and those of the claims
  that were taken, are all different ones, and nobody reads from the former.
-/

namespace ConsumerGroup

/-! ## One channel -/

/-- What may happen to a channel while its reader does nothing. -/
structure Channel.Grows (c c' : Channel) : Prop where
  /-- messages come in at the end -/
  comes : ∃ ms, c'.queue = c.queue ++ ms ∧ c'.arrived = c.arrived ++ ms
  /-- what was lost stays lost -/
  loses : c.lost <+: c'.lost

namespace Channel.Grows

theorem refl (c : Channel) : c.Grows c := ⟨⟨[], by simp⟩, List.prefix_refl _⟩

theorem trans {a b c : Channel} (h₁ : a.Grows b) (h₂ : b.Grows c) : a.Grows c := by
  obtain ⟨⟨ms, hq, ha⟩, hl⟩ := h₁
  obtain ⟨⟨ms', hq', ha'⟩, hl'⟩ := h₂
  refine ⟨⟨ms ++ ms', ?_, ?_⟩, hl.trans hl'⟩
  · rw [hq', hq, List.append_assoc]
  · rw [ha', ha, List.append_assoc]

theorem send (c : Channel) (m : Message) : c.Grows (c.send m) := by
  rw [Channel.send]
  split
  · exact ⟨⟨[m], rfl, rfl⟩, List.prefix_refl _⟩
  · split
    · exact ⟨⟨[], by simp⟩, List.prefix_append _ _⟩
    · exact refl c

theorem closeFeed (c : Channel) : c.Grows c.closeFeed :=
  ⟨⟨[], by simp [Channel.closeFeed]⟩, List.prefix_refl _⟩

/-- What nobody has read is all that ever came in. -/
theorem unread {c c' : Channel} (h : c.Grows c') (hu : c.queue = c.arrived) :
    c'.queue = c'.arrived := by
  obtain ⟨⟨ms, hq, ha⟩, -⟩ := h
  rw [hq, ha, hu]

end Channel.Grows

namespace Broker

/-! ## All channels -/

@[simp] theorem size_modifyChannel (b : Broker) (c : ChannelId) (f : Channel → Channel) :
    (b.modifyChannel c f).channels.size = b.channels.size :=
  Array.size_modify

theorem channel_modifyChannel_self {b : Broker} {c : ChannelId} (hc : c < b.channels.size)
    (f : Channel → Channel) : (b.modifyChannel c f).channel c = f (b.channel c) := by
  simp only [channel, modifyChannel, Array.getD_eq_getD_getElem?, Array.getElem?_modify, if_true,
    Array.getElem?_eq_getElem hc, Option.map_some, Option.getD_some]

@[simp] theorem channel_modifyChannel_of_ne (b : Broker) {c c' : ChannelId} (h : c' ≠ c)
    (f : Channel → Channel) : (b.modifyChannel c f).channel c' = b.channel c' := by
  simp [channel, modifyChannel, Array.getElem?_modify, Ne.symm h]

theorem channel_openChannel_of_lt {b : Broker} {c : ChannelId} (hc : c < b.channels.size)
    (ch : Channel) : (b.openChannel ch).2.channel c = b.channel c := by
  simp [channel, openChannel, Array.getElem?_push, Nat.ne_of_lt hc]

theorem channel_openChannel_self (b : Broker) (ch : Channel) :
    (b.openChannel ch).2.channel b.channels.size = ch := by
  simp [channel, openChannel]

theorem channel_congr {b b' : Broker} (h : b'.channels = b.channels) (c : ChannelId) :
    b'.channel c = b.channel c := by
  rw [channel, h, channel]

/-- What may happen to the channels of a broker while their readers do nothing. -/
structure Grows (b b' : Broker) : Prop where
  /-- channels stay -/
  size_le : b.channels.size ≤ b'.channels.size
  /-- each may grow -/
  channel : ∀ c < b.channels.size, (b.channel c).Grows (b'.channel c)

namespace Grows

theorem of_channels_eq {b b' : Broker} (h : b'.channels = b.channels) : b.Grows b' where
  size_le := Nat.le_of_eq (congrArg Array.size h.symm)
  channel c _ := by
    rw [channel_congr h]
    exact .refl _

theorem refl (b : Broker) : b.Grows b := of_channels_eq rfl

theorem trans {a b c : Broker} (h₁ : a.Grows b) (h₂ : b.Grows c) : a.Grows c where
  size_le := Nat.le_trans h₁.size_le h₂.size_le
  channel i hi := (h₁.channel i hi).trans (h₂.channel i (Nat.lt_of_lt_of_le hi h₁.size_le))

theorem modifyChannel (b : Broker) (c : ChannelId) {f : Channel → Channel}
    (hf : ∀ ch : Channel, ch.Grows (f ch)) : b.Grows (b.modifyChannel c f) where
  size_le := by simp
  channel c' hc' := by
    by_cases h : c' = c
    · subst h
      rw [channel_modifyChannel_self hc']
      exact hf _
    · rw [channel_modifyChannel_of_ne b h]
      exact .refl _

theorem openChannel (b : Broker) (ch : Channel) : b.Grows (b.openChannel ch).2 where
  size_le := by simp [Broker.openChannel]
  channel c hc := by
    rw [channel_openChannel_of_lt hc]
    exact .refl _

theorem foldl {β : Type} {f : Broker → β → Broker} (hf : ∀ (b : Broker) (x : β), b.Grows (f b x))
    (xs : List β) (b : Broker) : b.Grows (xs.foldl f b) := by
  induction xs generalizing b with
  | nil => exact refl b
  | cons x xs ih => exact (hf b x).trans (ih _)

end Grows

/-! ## What a broker does -/

theorem grows_append {b b' : Broker} {now : Int} {source : TopicPartition} {payload : ByteArray}
    {headers : Headers} {o : Offset} (h : b.append now source payload headers = .ok (o, b')) :
    b.Grows b' := by
  rw [append] at h
  split at h
  · cases h
  · obtain ⟨-, rfl⟩ := Prod.mk.inj (Except.ok.inj h)
    -- the log is not a channel; after that each feed is sent the message
    refine Grows.trans (b := b.setLog source _) (.of_channels_eq rfl) (Grows.foldl ?_ _ _)
    intro b c
    exact .modifyChannel b c fun ch => .send ch _

theorem grows_publish (b : Broker) (now : Int) (record : Record) :
    b.Grows (b.publish now record).2 := by
  rw [publish]
  split
  · exact .of_channels_eq rfl
  · dsimp only
    split
    · split
      · rename_i h
        -- the list of records and the announcement are no channels either
        have hg := grows_append h
        exact ⟨hg.size_le, hg.channel⟩
      · exact .of_channels_eq rfl
    · exact .of_channels_eq rfl

theorem grows_finishSession (b : Broker) (s : SessionId) (how : SessionEnd) :
    b.Grows (b.finishSession s how) := by
  refine (Grows.foldl ?_ (b.session s).feeds.entries b).trans (.of_channels_eq rfl)
  intro b feed
  exact .modifyChannel b feed.2 fun ch => .closeFeed ch

theorem grows_closeGroup (b : Broker) (group : String) (how : SessionEnd) :
    b.Grows (b.closeGroup group how) := by
  rw [closeGroup]
  split
  · exact grows_finishSession b _ how
  · exact .refl b

theorem channels_nextClaim (b : Broker) (s : SessionId) :
    (b.nextClaim s).2.channels = b.channels := by
  unfold nextClaim
  dsimp only
  split <;> rfl

/-! ## Claims that have not been handed out -/

/-- The channels of the claims that have not been handed out. -/
def pendingChannels (b : Broker) : List ChannelId :=
  b.sessions.toList.flatMap fun s => s.pending.map Claim.channel

theorem pendingChannels_congr {b b' : Broker} (h : b'.sessions = b.sessions) :
    b'.pendingChannels = b.pendingChannels := by
  rw [pendingChannels, h, pendingChannels]

theorem session_eq {b : Broker} {s : SessionId} {session : Session}
    (h : b.sessions[s]? = some session) : b.session s = session := by
  simp [Broker.session, h]

/-- Changing a session changes its own part of the pending channels. -/
theorem pendingChannels_modifySession {b : Broker} {s : SessionId} {session : Session}
    (h : b.sessions[s]? = some session) (f : Session → Session) :
    ∃ rest, b.pendingChannels.Perm (session.pending.map Claim.channel ++ rest) ∧
      (b.modifySession s f).pendingChannels.Perm
        ((f session).pending.map Claim.channel ++ rest) := by
  rw [← Array.getElem?_toList] at h
  obtain ⟨hs, hget⟩ := List.getElem?_eq_some_iff.1 h
  obtain ⟨l₁, a, l₂, hl, hlen, hmod⟩ := List.exists_of_modify f hs
  have ha : a = session := by
    rw [← hget]
    simp [hl, ← hlen]
  subst ha
  refine ⟨(l₁ ++ l₂).flatMap fun s => s.pending.map Claim.channel, ?_, ?_⟩
  · rw [pendingChannels, hl]
    simp only [List.flatMap_append, List.flatMap_cons]
    exact List.perm_append_comm_assoc _ _ _
  · rw [pendingChannels, modifySession, Array.toList_modify, hmod]
    simp only [List.flatMap_append, List.flatMap_cons]
    exact List.perm_append_comm_assoc _ _ _

/-- A session that nobody knows has nothing to change. -/
theorem modifySession_of_none {b : Broker} {s : SessionId} (h : b.sessions[s]? = none)
    (f : Session → Session) : b.modifySession s f = b := by
  have hs : b.sessions.size ≤ s := by simpa using h
  rw [modifySession]
  congr 1
  apply Array.ext_getElem?
  intro j
  rw [Array.getElem?_modify]
  split
  · rename_i hj
    subst hj
    simp [h]
  · rfl

theorem pendingChannels_modifySession_of_pending (b : Broker) (s : SessionId)
    {f : Session → Session} (hf : ∀ session, (f session).pending = session.pending) :
    (b.modifySession s f).pendingChannels.Perm b.pendingChannels := by
  rcases h : b.sessions[s]? with _ | session
  · rw [modifySession_of_none h]
  · obtain ⟨rest, h₁, h₂⟩ := pendingChannels_modifySession h f
    rw [hf] at h₂
    exact h₂.trans h₁.symm

/-- The pending channels and those of the claims that were taken are all different, and nobody reads
from a pending one. -/
structure Owned (b : Broker) (taken : List ChannelId) : Prop where
  /-- no channel belongs to two claims -/
  nodup : (b.pendingChannels ++ taken).Nodup
  /-- the channels exist -/
  lt_size : ∀ c ∈ b.pendingChannels ++ taken, c < b.channels.size
  /-- a claim that was not handed out has all its messages -/
  unread : ∀ c ∈ b.pendingChannels, (b.channel c).queue = (b.channel c).arrived

namespace Owned

variable {b b' : Broker} {taken : List ChannelId}

/-- What lets channels grow and keeps the pending claims keeps their ownership. -/
theorem of_grows (h : b.Owned taken) (hg : b.Grows b')
    (hp : b'.pendingChannels.Perm b.pendingChannels) : b'.Owned taken where
  nodup := ((hp.append_right taken).nodup_iff).2 h.nodup
  lt_size c hc :=
    Nat.lt_of_lt_of_le (h.lt_size c ((hp.append_right taken).mem_iff.1 hc)) hg.size_le
  unread c hc := by
    have hc' := hp.mem_iff.1 hc
    exact (hg.channel c (h.lt_size c (List.mem_append_left _ hc'))).unread (h.unread c hc')

theorem of_sessions_eq (h : b.Owned taken) (hg : b.Grows b') (hs : b'.sessions = b.sessions) :
    b'.Owned taken :=
  h.of_grows hg (by rw [pendingChannels_congr hs])

/-- A claim from outside gets a new channel. -/
theorem offerClaim (h : b.Owned taken) (s : SessionId) (source : TopicPartition) {ch : Channel}
    (hu : ch.queue = ch.arrived) : (b.offerClaim s source ch).2.Owned taken := by
  rw [Broker.offerClaim]
  split
  · rename_i hatt
    rcases hs : b.sessions[s]? with _ | session
    · simp [Broker.session, hs] at hatt
    · have hg := Grows.openChannel b ch
      obtain ⟨rest, h₁, h₂⟩ := pendingChannels_modifySession (b := (b.openChannel ch).2) hs
        fun session => { session with pending := session.pending ++ [⟨source, b.channels.size⟩] }
      rw [List.map_append, List.append_assoc] at h₂
      have hp := (h₂.trans List.perm_middle).trans (h₁.symm.cons b.channels.size)
      have hnew : b.channels.size ∉ b.pendingChannels ++ taken :=
        fun hm => Nat.lt_irrefl _ (h.lt_size _ hm)
      refine ⟨(hp.append_right taken).nodup_iff.2 (List.nodup_cons.2 ⟨hnew, h.nodup⟩), ?_, ?_⟩
      · intro c hc
        have hsize : (b.openChannel ch).2.channels.size = b.channels.size + 1 :=
          Array.size_push _
        change c < (b.openChannel ch).2.channels.size
        rcases List.mem_cons.1 ((hp.append_right taken).mem_iff.1 hc) with rfl | hc
        · lia
        · have := h.lt_size c hc
          lia
      · intro c hc
        change ((b.openChannel ch).2.channel c).queue = ((b.openChannel ch).2.channel c).arrived
        rcases List.mem_cons.1 (hp.mem_iff.1 hc) with rfl | hc
        · rw [channel_openChannel_self]
          exact hu
        · exact (hg.channel c (h.lt_size c (List.mem_append_left _ hc))).unread (h.unread c hc)
  · exact h.of_sessions_eq (.openChannel b _) rfl

end Owned

/-- What a session answers when it has claims to hand out. -/
theorem nextClaim_of_pending {b : Broker} {s : SessionId} {claim : Claim} {rest : List Claim}
    (h : (b.session s).pending = claim :: rest) :
    b.nextClaim s = (.claim claim, b.modifySession s ({ · with pending := rest })) := by
  simp [nextClaim, h]

/-- A claim that is handed out was pending. -/
theorem pending_of_nextClaim {b b' : Broker} {s : SessionId} {claim : Claim}
    (h : b.nextClaim s = (.claim claim, b')) :
    ∃ rest, (b.session s).pending = claim :: rest ∧
      b' = b.modifySession s ({ · with pending := rest }) := by
  rcases hp : (b.session s).pending with _ | ⟨claim', rest⟩
  · rw [nextClaim, hp] at h
    rcases he : (b.session s).ending with _ | how
    · rw [he] at h
      cases h
    · rw [he] at h
      cases how <;> cases h
  · rw [nextClaim_of_pending hp] at h
    obtain ⟨hc, rfl⟩ := Prod.mk.inj h
    obtain rfl := NextClaim.claim.inj hc
    exact ⟨rest, rfl, rfl⟩

theorem getElem?_of_pending {b : Broker} {s : SessionId} {claim : Claim} {rest : List Claim}
    (h : (b.session s).pending = claim :: rest) :
    ∃ session, b.sessions[s]? = some session ∧ session.pending = claim :: rest := by
  rcases hs : b.sessions[s]? with _ | session
  · simp [session, hs] at h
  · rw [session_eq hs] at h
    exact ⟨session, rfl, h⟩

namespace Owned

variable {b b' : Broker} {taken : List ChannelId}

/-- A claim that is handed out changes hands, with all its messages. -/
theorem handOut (h : b.Owned taken) {s : SessionId} {claim : Claim}
    (hn : b.nextClaim s = (.claim claim, b')) :
    b'.Owned (taken ++ [claim.channel]) ∧ claim.channel < b.channels.size ∧
      (b.channel claim.channel).queue = (b.channel claim.channel).arrived := by
  obtain ⟨rest, hp, rfl⟩ := pending_of_nextClaim hn
  obtain ⟨session, hs, hpend⟩ := getElem?_of_pending hp
  obtain ⟨others, h₁, h₂⟩ := pendingChannels_modifySession hs ({ · with pending := rest })
  rw [hpend] at h₁
  have hmem : claim.channel ∈ b.pendingChannels := h₁.mem_iff.2 List.mem_cons_self
  have hlt := h.lt_size _ (List.mem_append_left taken hmem)
  -- the channel goes from the front of the pending ones to the end of the others
  have hfront := (h₁.trans (h₂.symm.cons claim.channel)).append_right taken
  have hperm := (List.append_assoc _ _ _ ▸ List.perm_append_singleton claim.channel _).trans
    hfront.symm
  refine ⟨⟨hperm.nodup_iff.2 h.nodup, fun c hc => h.lt_size c (hperm.mem_iff.1 hc), ?_⟩, hlt,
    h.unread _ hmem⟩
  intro c hc
  exact h.unread c (h₁.mem_iff.2 (List.mem_cons_of_mem _ (h₂.mem_iff.1 hc)))

/-- Whatever else a session answers, no claim changes hands. -/
theorem nextClaim (h : b.Owned taken) {s : SessionId} (hn : ∀ claim, (b.nextClaim s).1 ≠ .claim claim) :
    (b.nextClaim s).2.Owned taken := by
  rcases hp : (b.session s).pending with _ | ⟨claim, rest⟩
  · rw [Broker.nextClaim]
    simp only [hp]
    rcases he : (b.session s).ending with _ | how
    · exact h
    · cases how with
      | ended => exact h
      | failed error =>
        exact h.of_grows (.of_channels_eq rfl)
          (pendingChannels_modifySession_of_pending b s fun _ => rfl)
  · rw [nextClaim_of_pending hp] at hn
    exact absurd rfl (hn claim)

theorem finishSession (h : b.Owned taken) (s : SessionId) (how : SessionEnd) :
    (b.finishSession s how).Owned taken := by
  have hfold : ∀ (feeds : List (TopicPartition × ChannelId)) (b : Broker), b.Owned taken →
      (feeds.foldl (fun b feed => b.modifyChannel feed.2 Channel.closeFeed) b).Owned taken := by
    intro feeds
    induction feeds with
    | nil => exact fun _ hb => hb
    | cons feed feeds ih =>
      exact fun b hb => ih _ (hb.of_sessions_eq (.modifyChannel b _ .closeFeed) rfl)
  exact (hfold _ b h).of_grows (.of_channels_eq rfl)
    (pendingChannels_modifySession_of_pending _ s fun _ => rfl)

theorem closeGroup (h : b.Owned taken) (group : String) (how : SessionEnd) :
    (b.closeGroup group how).Owned taken := by
  rw [Broker.closeGroup]
  split
  · exact h.finishSession _ how
  · exact h

end Owned

/-! ## Leaving -/

theorem size_foldl_closeReader (claims : List Claim) (b : Broker) :
    (claims.foldl (fun b claim => b.modifyChannel claim.channel Channel.closeReader) b).channels.size =
      b.channels.size := by
  induction claims generalizing b with
  | nil => rfl
  | cons claim claims ih => rw [List.foldl_cons, ih, size_modifyChannel]

theorem sessions_foldl_closeReader (claims : List Claim) (b : Broker) :
    (claims.foldl (fun b claim => b.modifyChannel claim.channel Channel.closeReader) b).sessions =
      b.sessions := by
  induction claims generalizing b with
  | nil => rfl
  | cons claim claims ih => rw [List.foldl_cons, ih, modifyChannel]

theorem channel_foldl_closeReader {claims : List Claim} {c : ChannelId}
    (h : c ∉ claims.map Claim.channel) (b : Broker) :
    (claims.foldl (fun b claim => b.modifyChannel claim.channel Channel.closeReader) b).channel c =
      b.channel c := by
  induction claims generalizing b with
  | nil => rfl
  | cons claim claims ih =>
    rw [List.map_cons, List.mem_cons, not_or] at h
    rw [List.foldl_cons, ih h.2, channel_modifyChannel_of_ne b h.1]

/-- Leaving a session touches only the channels of the claims it did not hand out. -/
theorem channel_dropSession {b : Broker} {s : SessionId} {c : ChannelId}
    (h : c ∉ (b.session s).pending.map Claim.channel) : (b.dropSession s).channel c = b.channel c :=
  channel_foldl_closeReader h b

/-- A session that nobody knows is not left. -/
theorem dropSession_of_none {b : Broker} {s : SessionId} (h : b.sessions[s]? = none) :
    b.dropSession s = b := by
  rw [dropSession, session]
  simp only [Array.getD_eq_getD_getElem?, h, Option.getD_none, List.foldl_nil]
  exact modifySession_of_none h _

theorem mem_pendingChannels_of_session {b : Broker} {s : SessionId} {c : ChannelId}
    (h : c ∈ (b.session s).pending.map Claim.channel) : c ∈ b.pendingChannels := by
  rcases hs : b.sessions[s]? with _ | session
  · simp [session, hs] at h
  · rw [session_eq hs] at h
    exact List.mem_flatMap.2 ⟨session, Array.mem_toList_iff.2 (Array.mem_of_getElem? hs), h⟩

namespace Owned

variable {b : Broker} {taken : List ChannelId}

/-- Leaving a session does not touch the channels of claims that were taken. -/
theorem channel_dropSession (h : b.Owned taken) (s : SessionId) {c : ChannelId} (hc : c ∈ taken) :
    (b.dropSession s).channel c = b.channel c := by
  apply Broker.channel_dropSession
  intro hm
  exact List.disjoint_of_nodup_append h.nodup (mem_pendingChannels_of_session hm) hc

theorem dropSession (h : b.Owned taken) (s : SessionId) : (b.dropSession s).Owned taken := by
  rcases hs : b.sessions[s]? with _ | session
  · rw [dropSession_of_none hs]
    exact h
  · have hs' : (((b.session s).pending.foldl
        (fun b claim => b.modifyChannel claim.channel Channel.closeReader) b).sessions)[s]? =
        some session := by
      rw [sessions_foldl_closeReader, hs]
    obtain ⟨rest, h₁, h₂⟩ :=
      pendingChannels_modifySession hs' ({ · with pending := [], attended := false })
    rw [pendingChannels_congr (sessions_foldl_closeReader _ _)] at h₁
    rw [List.map_nil, List.nil_append] at h₂
    have hsub : ∀ c ∈ (b.dropSession s).pendingChannels,
        c ∈ b.pendingChannels ∧ c ∉ (b.session s).pending.map Claim.channel := by
      intro c hc
      have hc' := h₂.mem_iff.1 hc
      refine ⟨h₁.mem_iff.2 (List.mem_append_right _ hc'), ?_⟩
      intro hm
      rw [session_eq hs] at hm
      have hnd := h₁.nodup_iff.1 (List.Nodup.of_append_left h.nodup)
      exact List.disjoint_of_nodup_append hnd hm hc'
    have hnd : (rest ++ taken).Nodup :=
      ((h₁.append_right taken).nodup_iff.1 h.nodup).sublist
        ((List.sublist_append_right _ rest).append_right taken)
    refine ⟨(h₂.append_right taken).nodup_iff.2 hnd, ?_, ?_⟩
    · intro c hc
      have hsize : (b.dropSession s).channels.size = b.channels.size :=
        size_foldl_closeReader _ b
      rw [hsize]
      rcases List.mem_append.1 hc with hc | hc
      · exact h.lt_size c (List.mem_append_left _ (hsub c hc).1)
      · exact h.lt_size c (List.mem_append_right _ hc)
    · intro c hc
      rw [Broker.channel_dropSession (hsub c hc).2]
      exact h.unread c (hsub c hc).1

end Owned

/-! ## Joining -/

/-- A session that is being set up at a broker that was `b₀` before: its claims have new channels, from
which nobody reads. -/
structure SetUp (b₀ : Broker) (session : Session) (b : Broker) : Prop where
  /-- nothing is taken out of a channel -/
  grows : b₀.Grows b
  /-- the other sessions stay -/
  sessions_eq : b.sessions = b₀.sessions
  /-- the channels of the claims are all different -/
  nodup : (session.pending.map Claim.channel).Nodup
  /-- they are new -/
  fresh : ∀ c ∈ session.pending.map Claim.channel, b₀.channels.size ≤ c ∧ c < b.channels.size
  /-- nobody reads from them -/
  unread : ∀ c ∈ session.pending.map Claim.channel, (b.channel c).queue = (b.channel c).arrived

namespace SetUp

variable {b₀ b : Broker} {session : Session}

theorem start (b : Broker) (group : String) : b.SetUp { group } b where
  grows := .refl b
  sessions_eq := rfl
  nodup := List.nodup_nil
  fresh := fun _ h => absurd h List.not_mem_nil
  unread := fun _ h => absurd h List.not_mem_nil

/-- An earlier channel for the same partition gets nothing more; that changes no session. -/
theorem grows_closeEarlier (b : Broker) (earlier : Option ChannelId) :
    b.Grows (match earlier with
      | some c => b.modifyChannel c Channel.closeFeed
      | none => b) := by
  cases earlier with
  | none => exact .refl b
  | some c => exact .modifyChannel b c .closeFeed

theorem claimPartition (h : SetUp b₀ session b) (source : TopicPartition) (log : Array Message) :
    SetUp b₀ (b.claimPartition session source log).1 (b.claimPartition session source log).2 := by
  let ch := Channel.ofBacklog claimCapacity
    (log.toList.filter (b.startOffset session.group source ≤ ·.offset))
  have hopen := Grows.openChannel b ch
  have hclose := grows_closeEarlier (b.openChannel ch).2 (session.feeds.get? source)
  have hg : b.Grows (b.claimPartition session source log).2 := hopen.trans hclose
  have hsize : (b.openChannel ch).2.channels.size = b.channels.size + 1 := Array.size_push _
  have hlt : b.channels.size < (b.claimPartition session source log).2.channels.size := by
    have := hclose.size_le
    rw [hsize] at this
    exact this
  have hmap : (b.claimPartition session source log).1.pending.map Claim.channel =
      session.pending.map Claim.channel ++ [b.channels.size] := List.map_append
  refine ⟨h.grows.trans hg, ?_, ?_, ?_, ?_⟩
  · rw [← h.sessions_eq, Broker.claimPartition]
    dsimp only
    split <;> rfl
  · rw [hmap, List.nodup_append]
    refine ⟨h.nodup, List.nodup_singleton _, ?_⟩
    intro c hc c' hc'
    obtain rfl := List.mem_singleton.1 hc'
    exact Nat.ne_of_lt (h.fresh c hc).2
  · intro c hc
    rw [hmap, List.mem_append, List.mem_singleton] at hc
    rcases hc with hc | rfl
    · exact ⟨(h.fresh c hc).1, Nat.lt_of_lt_of_le (h.fresh c hc).2 hg.size_le⟩
    · exact ⟨h.grows.size_le, hlt⟩
  · intro c hc
    rw [hmap, List.mem_append, List.mem_singleton] at hc
    rcases hc with hc | rfl
    · exact (hg.channel c (h.fresh c hc).2).unread (h.unread c hc)
    · apply (hclose.channel _ (by rw [hsize]; exact Nat.lt_succ_self _)).unread
      rw [channel_openChannel_self]
      rfl

theorem claimTopic (h : SetUp b₀ session b) (topic : String) :
    SetUp b₀ (b.claimTopic session topic).1 (b.claimTopic session topic).2 := by
  rw [Broker.claimTopic]
  generalize ((b.topics.get? topic).getD []).zipIdx = partitions
  induction partitions generalizing session b with
  | nil => exact h
  | cons partition partitions ih => exact ih (h.claimPartition ⟨topic, partition.2⟩ partition.1)

theorem foldl (h : SetUp b₀ session b) (topics : List String) :
    SetUp b₀
      (topics.foldl (fun (session, b) topic => Broker.claimTopic b session topic) (session, b)).1
      (topics.foldl (fun (session, b) topic => Broker.claimTopic b session topic) (session, b)).2 := by
  induction topics generalizing session b with
  | nil => exact h
  | cons topic topics ih => exact ih (h.claimTopic topic)

end SetUp

/-- What a join comes to: an error, and then nothing happens but that the attempt is noted and the error
that was waiting for it is used up; or a new session, set up after the live one of the group was ended. -/
theorem join_cases (b : Broker) (cluster : ClusterSpec) (group : String) (topics : List String) :
    (∃ error, b.join cluster group topics = (.error error,
      { b with
        joins := b.joins.push ⟨group, cluster.brokers, topics⟩
        joinFailures := b.joinFailures.tail })) ∨
    b.joinFailures = [] ∧ (∀ topic ∈ topics, b.topics.contains topic = true) ∧
      ∃ b₀ b₁ : Broker, ∃ session,
        b₀ = { b with joins := b.joins.push ⟨group, cluster.brokers, topics⟩ } ∧
        topics.foldl (fun (session, b) topic => claimTopic b session topic)
          (({ group } : Session), b₀.endSession group) = (session, b₁) ∧
        b.join cluster group topics =
          (.ok b₁.sessions.size, { b₁ with sessions := b₁.sessions.push session }) := by
  rw [join]
  dsimp only
  split
  · rename_i error rest hfails
    rw [hfails]
    exact Or.inl ⟨error, rfl⟩
  · rename_i hfails
    split
    · exact Or.inl ⟨_, by rw [hfails]; rfl⟩
    · rename_i hfound
      have hknown : ∀ topic ∈ topics, b.topics.contains topic = true := fun topic ht => by
        simpa using List.find?_eq_none.1 hfound topic ht
      exact Or.inr ⟨hfails, hknown, _, _, _, rfl, rfl, rfl⟩

namespace Owned

variable {b : Broker} {taken : List ChannelId}

/-- The claims of a session that has been set up are pending. -/
theorem openSession {b₀ : Broker} {session : Session} (h : b₀.Owned taken)
    (hs : SetUp b₀ session b) : (b.openSession session).2.Owned taken := by
  have hpend : (b.openSession session).2.pendingChannels =
      b₀.pendingChannels ++ session.pending.map Claim.channel := by
    rw [pendingChannels, Broker.openSession, Array.toList_push, hs.sessions_eq, List.flatMap_append]
    simp [pendingChannels]
  have hnew : ∀ c ∈ b₀.pendingChannels ++ taken, c ∉ session.pending.map Claim.channel :=
    fun c hc hm => Nat.not_le_of_lt (h.lt_size c hc) (hs.fresh c hm).1
  have hperm : ((b.openSession session).2.pendingChannels ++ taken).Perm
      (session.pending.map Claim.channel ++ (b₀.pendingChannels ++ taken)) := by
    rw [hpend, ← List.append_assoc]
    exact List.perm_append_comm.append_right taken
  refine ⟨hperm.nodup_iff.2 (List.nodup_append.2 ⟨hs.nodup, h.nodup, ?_⟩), ?_, ?_⟩
  · rintro c hc c' hc' rfl
    exact hnew c hc' hc
  · intro c hc
    change c < b.channels.size
    rcases List.mem_append.1 (hperm.mem_iff.1 hc) with hc | hc
    · exact (hs.fresh c hc).2
    · exact Nat.lt_of_lt_of_le (h.lt_size c hc) hs.grows.size_le
  · intro c hc
    change (b.channel c).queue = (b.channel c).arrived
    rw [hpend, List.mem_append] at hc
    rcases hc with hc | hc
    · exact (hs.grows.channel c (h.lt_size c (List.mem_append_left _ hc))).unread (h.unread c hc)
    · exact hs.unread c hc

theorem join (h : b.Owned taken) (cluster : ClusterSpec) (group : String) (topics : List String) :
    b.Grows (b.join cluster group topics).2 ∧ (b.join cluster group topics).2.Owned taken := by
  rcases join_cases b cluster group topics with
    ⟨error, hj⟩ | ⟨-, -, b₀, b₁, session, hb, hf, hj⟩
  · rw [hj]
    exact ⟨.of_channels_eq rfl, h.of_sessions_eq (.of_channels_eq rfl) rfl⟩
  · -- noting the attempt changes neither channels nor sessions
    have hchannels : b₀.channels = b.channels := by rw [hb]
    have hsessions : b₀.sessions = b.sessions := by rw [hb]
    have hg₀ : b.Grows b₀ := .of_channels_eq hchannels
    have h₀ : b₀.Owned taken := h.of_sessions_eq hg₀ hsessions
    have hg₁ : b₀.Grows (b₀.endSession group) := grows_closeGroup b₀ group .ended
    have h₁ : (b₀.endSession group).Owned taken := h₀.closeGroup group .ended
    have hset := (SetUp.start (b₀.endSession group) group).foldl topics
    rw [hf] at hset
    rw [hj]
    refine ⟨?_, h₁.openSession hset⟩
    exact hg₀.trans (hg₁.trans (hset.grows.trans (.of_channels_eq rfl)))

end Owned

end Broker

end ConsumerGroup
