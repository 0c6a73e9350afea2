import ConsumerGroup.Proofs.Broker.Coverage

/-!
# Where claims begin

A claim may lose messages for want of room.  Even so, what comes in on it comes from the log of its
partition, in order, and nothing that the group had marked when it joined.

* `Broker.Draws` — all that has come in on a claim is in the log, from some offset on.
* `Draws.change` — that stays so, whatever happens.
* `Change.opened` — a new claim begins where its group has marked.
-/

namespace ConsumerGroup.Broker

variable {b b' : Broker} {source : TopicPartition} {base : Offset} {s : SessionId}

/-- What has come in on the claim of session `s` on a partition comes from the log, in order, and has
offset `base` or a larger one. -/
def Draws (b : Broker) (source : TopicPartition) (base : Offset) (s : SessionId) : Prop :=
  ∀ c, (b.session s).feeds.get? source = some c → ∃ log, b.log? source = some log ∧
    base ≤ log.size ∧ (b.channel c).arrived.Sublist log.toList ∧
    ∀ m ∈ (b.channel c).arrived, base ≤ m.offset

/-- Nothing lies below the beginning of a log. -/
theorem Draws.zero (h : b.Draws source base s) (hlogged : b.Logged source) : b.Draws source 0 s := by
  intro c hc
  obtain ⟨log, hlog, -, hsub, -⟩ := h c hc
  exact ⟨log, hlog, Int.natCast_nonneg _, hsub, ((hlogged.isLog log hlog).increasing hsub).2⟩

/-- A session that nobody knows draws nothing. -/
theorem draws_of_size_le (hs : b.sessions.size ≤ s) : b.Draws source base s :=
  fun _ hc => absurd (lt_size_of_feeds hc) (Nat.not_lt_of_le hs)

theorem Draws.stays (h : b.Draws source base s) (hs : b.Stays b') : b'.Draws source base s := by
  intro c hc
  rw [(hs.session s).feeds_eq] at hc
  rw [hs.log?_eq, (hs.channel c).arrived_eq]
  exact h c hc

theorem Draws.appends {source' : TopicPartition} {m : Message} (h : b.Draws source base s)
    (hw : b.Wired) (ha : b.Appends b' source' m) : b'.Draws source base s := by
  intro c hc
  rw [session_congr ha.sessions_eq] at hc
  obtain ⟨log, hlog, hbase, hsub, hge⟩ := h c hc
  rw [ha.channel]
  by_cases hs : source = source'
  · subst hs
    obtain ⟨log', hlog', hoff, hpush⟩ := ha.log
    obtain rfl := Option.some.inj (hlog.symm.trans hlog')
    refine ⟨_, hpush, ?_, ?_⟩
    · rw [Array.size_push]
      lia
    -- the message comes in at the end of the log, and of the claim if it does at all
    have hkept : (b.channel c).arrived.Sublist (log.push m).toList := by
      rw [Array.toList_push]
      exact hsub.trans (List.sublist_append_left _ _)
    split
    · rcases (b.channel c).arrived_send m with heq | heq
      · rw [heq]
        exact ⟨hkept, hge⟩
      · rw [heq, Array.toList_push]
        refine ⟨hsub.append_right _, ?_⟩
        intro m' hm'
        rcases List.mem_append.1 hm' with hm' | hm'
        · exact hge m' hm'
        · rw [List.mem_singleton.1 hm', hoff]
          exact hbase
    · exact ⟨hkept, hge⟩
  · have hnot : c ∉ b.feedsOf source' := by
      intro hmem
      obtain ⟨s', -, hc'⟩ := mem_feedsOf.1 hmem
      exact hs (hw.inj s s' source source' c hc hc').2
    rw [if_neg hnot]
    exact ⟨log, (ha.log_ne source hs).trans hlog, hbase, hsub, hge⟩

/-- The claims there were go on as they were when a session is opened. -/
theorem Draws.opens {b₁ : Broker} {group : String} {session : Session} (h : b.Draws source base s)
    (hw : b.Wired) (hs : s < b.sessions.size) (ho : b.Opens group session b₁) :
    ({ b₁ with sessions := b₁.sessions.push session } : Broker).Draws source base s := by
  intro c hc
  rw [ho.session_of_ne (Nat.ne_of_lt hs)] at hc
  rw [ho.log?_eq]
  have hch : ({ b₁ with sessions := b₁.sessions.push session } : Broker).channel c = b.channel c :=
    ho.channel_eq c (hw.lt_size s source c hc)
  rw [hch]
  exact h c hc

/-- The claim of a new session begins where the group has marked. -/
theorem Opens.draws {b₁ : Broker} {group : String} {session : Session} (ho : b.Opens group session b₁)
    (hstart : ∀ log, b.log? source = some log → b.startOffset group source ≤ log.size) :
    ({ b₁ with sessions := b₁.sessions.push session } : Broker).Draws source
      (b.startOffset group source) b.sessions.size := by
  intro c hc
  rw [ho.session_new] at hc
  rw [ho.log?_eq]
  obtain ⟨-, -, log, hlog, hch⟩ := ho.feeds source c hc
  have hch' : ({ b₁ with sessions := b₁.sessions.push session } : Broker).channel c = _ := hch
  have hsub := List.take_sublist claimCapacity
    (log.toList.filter fun m => b.startOffset group source ≤ m.offset)
  rw [hch']
  refine ⟨log, hlog, hstart log hlog, hsub.trans List.filter_sublist, ?_⟩
  intro m hm
  simpa using (List.mem_filter.1 (hsub.subset hm)).2

/-- **Claims go on.**  Whatever happens, what has come in on a claim stays what it is, and what comes
after it is new. -/
theorem Draws.change (h : b.Draws source base s) (hw : b.Wired) (hs : s < b.sessions.size)
    (hchange : Change source b b') : b'.Draws source base s := by
  cases hchange with
  | stays hstays => exact h.stays hstays
  | appends happends hstays => exact (h.appends hw happends).stays hstays
  | creates topic partitions hnew =>
    intro c hc
    obtain ⟨log, hlog, hrest⟩ := h c hc
    by_cases ht : source.topic = topic
    · exact nomatch (log?_eq_none (ht ▸ hnew ht.symm)).symm.trans hlog
    · exact ⟨log, (log?_createTopic_of_ne ht partitions).trans hlog, hrest⟩
  | opens hstays _ ho =>
    exact (h.stays hstays).opens (hw.stays hstays) (by rwa [hstays.sessions_size]) ho

/-- **Claims begin.**  A session that is new begins where its group has marked. -/
theorem Change.opened (h : Change source b b') (hs : b.sessions.size ≤ s) (hs' : s < b'.sessions.size)
    (hstart : ∀ group log, b.log? source = some log → b.startOffset group source ≤ log.size) :
    b'.Draws source (b.startOffset (b'.session s).group source) s := by
  cases h with
  | stays hstays =>
    rw [hstays.sessions_size] at hs'
    exact absurd hs' (Nat.not_lt_of_le hs)
  | appends happends hstays =>
    rw [hstays.sessions_size, happends.sessions_eq] at hs'
    exact absurd hs' (Nat.not_lt_of_le hs)
  | creates =>
    exact absurd hs' (Nat.not_lt_of_le hs)
  | @opens b₀ b₁ group session hstays hcommits ho =>
    have hsize : s = b₀.sessions.size := by
      rw [Array.size_push, ho.sessions_eq, hstays.sessions_size] at hs'
      rw [hstays.sessions_size]
      exact Nat.le_antisymm (Nat.le_of_lt_succ hs') hs
    subst hsize
    have hkept : b₀.startOffset group source = b.startOffset group source := (hcommits.others nofun).2
    rw [ho.session_new, ho.group_eq, ← hkept]
    refine ho.draws ?_
    intro log hlog
    rw [hkept]
    exact hstart group log (hstays.log?_eq source ▸ hlog)

/-- So nothing ever comes in on a claim but what the log of its partition holds. -/
theorem Change.draws (h : Change source b b') (hw : b.Wired) (hlogged' : b'.Logged source)
    (hall : ∀ s, b.Draws source 0 s)
    (hstart : ∀ group log, b.log? source = some log → b.startOffset group source ≤ log.size)
    (s : SessionId) : b'.Draws source 0 s := by
  by_cases hs : s < b.sessions.size
  · exact (hall s).change hw hs h
  · by_cases hs' : s < b'.sessions.size
    · exact (h.opened (Nat.le_of_not_lt hs) hs' hstart).zero hlogged'
    · exact draws_of_size_le (Nat.le_of_not_lt hs')

end ConsumerGroup.Broker
