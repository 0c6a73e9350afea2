import ConsumerGroup.Proofs.Broker.Deliveries

/-!
# What claims bring

A broker is asked anything; then a group joins.

* `Broker.Replaces` — the join ends the session the group had, and gives it a new one with a claim for
  each partition.
* `Broker.Brings` — what a claim brings after any more calls: what the log held, and what was added while
  the session was the live one, in the order of the log.
* `claims_bring` — both hold, and a join that fails changes nothing.

A group that has marked an offset behind the end of the log gets what is added there all the same:
`brought_below_mark`.
-/

namespace ConsumerGroup.Broker

variable {b b' b₀ b₁ b₂ : Broker} {group : String} {source : TopicPartition} {s : SessionId}
  {claim : Claim} {session : Session} {topics : List String} {calls : List Call}

/-- What a group that joins finds in the log of a partition: all from the offset on that it has
marked. -/
def backlog (b : Broker) (group : String) (source : TopicPartition) : List Message :=
  (b.messages source).filter fun m => b.startOffset group source ≤ m.offset

/-- Where a claim begins: at the offset that the group has marked, or at the end of the log if that is
before it. -/
def beginning (b : Broker) (group : String) (source : TopicPartition) : Offset :=
  min (b.startOffset group source) (b.messages source).length

/-- What a claim brings that a group got from broker `b` by a join, when some calls have been made to
broker `b'` after that. -/
structure Brings (b : Broker) (group : String) (s : SessionId) (claim : Claim) (b' : Broker)
    (calls : List Call) : Prop where
  /-- of the backlog, as much as a channel holds, and of what was added later what found room, some has
  been received, and the rest waits -/
  delivers : along (fun b => b.received claim.channel) b' calls ++
      ((b'.run calls).channel claim.channel).queue =
    (b.backlog group claim.source).take claimCapacity ++
      roomy (along (fun b => b.arriving group s claim) b' calls)
  /-- this is what the log holds from the beginning on -/
  inOrder : b.backlog group claim.source ++
      (along (fun b => b.arriving group s claim) b' calls).map Prod.fst <+:
    ((b'.run calls).messages claim.source).filter fun m => b.beginning group claim.source ≤ m.offset
  /-- all of it, while the session is the live one of the group -/
  complete : (b'.run calls).liveSession? group = some s →
    b.backlog group claim.source ++
        (along (fun b => b.arriving group s claim) b' calls).map Prod.fst =
      ((b'.run calls).messages claim.source).filter fun m => b.beginning group claim.source ≤ m.offset
  /-- nothing is received twice -/
  increasing : ((along (fun b => b.received claim.channel) b' calls).map Message.offset).Pairwise
    (· < ·)
  /-- and nothing more comes in once the session is not the live one any more -/
  nothingMore : (b'.run calls).liveSession? group ≠ some s → ∀ later,
    along (fun b => b.arriving group s claim) (b'.run calls) later = []

/-- What a join comes to that succeeds. -/
structure Replaces (b : Broker) (group : String) (topics : List String) (s : SessionId) (b' : Broker) :
    Prop where
  /-- the session that the group had ends -/
  ended : ∀ s', b.liveSession? group = some s' →
    (b'.session s').live = false ∧ (b'.session s').ending = some .ended
  /-- the new one is the live one -/
  live : b'.liveSession? group = some s
  /-- those of other groups live on -/
  others : ∀ group' ≠ group, b'.liveSession? group' = b.liveSession? group'
  /-- it has a claim for each partition of each topic, in order -/
  claims : (b'.session s).pending.map Claim.source = topics.flatMap b.partitions
  /-- and hands them out in that order -/
  handsOut : ∀ calls : List Call, (∀ call ∈ calls, call ≠ .dropSession s) →
    along (fun b => b.handed s) b' calls ++ ((b'.run calls).session s).pending =
      (b'.session s).pending
  /-- each brings what it is to bring, as long as readers stay and the topic is not made again -/
  brings : ∀ claim ∈ (b'.session s).pending, ∀ calls : List Call,
    (∀ call ∈ calls, call.spares claim.source.topic = true) → b.Brings group s claim b' calls

/-! ## A new claim -/

/-- The backlog is what the log holds from the beginning on. -/
theorem backlog_append (hlog : IsLog (b.messages source)) {more : List Message}
    (hmore : IsLog (b.messages source ++ more)) :
    (b.messages source ++ more).filter (fun m => b.beginning group source ≤ m.offset) =
      b.backlog group source ++ more := by
  have hle : (b.beginning group source).toNat ≤ (b.messages source).length := by
    rw [beginning]
    lia
  rw [backlog, hmore.filter_eq_drop, hlog.filter_eq_drop, List.drop_append_of_le_length hle]
  congr 1
  rcases Int.le_total (b.startOffset group source) (b.messages source).length with h | h
  · rw [beginning, Int.min_eq_left h]
  · rw [beginning, Int.min_eq_right h, Int.toNat_natCast, List.drop_length,
      List.drop_eq_nil_of_le (by lia)]

/-- What a claim brings that starts with the backlog in its channel. -/
theorem Carries.brings (h : b'.Sound) (hc : b'.Carries group s claim)
    (hqueue : (b'.channel claim.channel).queue =
      (b.backlog group claim.source).take claimCapacity)
    (hmessages : b'.messages claim.source = b.messages claim.source)
    (hlogs : ∀ calls, IsLog ((b'.run calls).messages claim.source))
    (hspares : ∀ call ∈ calls, call.spares claim.source.topic = true) :
    b.Brings group s claim b' calls := by
  have hdelivers := hc.received_append_queue h hspares
  rw [hqueue] at hdelivers
  obtain ⟨rest, hrest, hall⟩ := hc.messages_run h hspares
  have hlog := hlogs []
  have hlater := hlogs calls
  rw [hrest, List.append_assoc, hmessages] at hlater
  change IsLog (b'.messages claim.source) at hlog
  rw [hmessages] at hlog
  have hfilter : ((b'.run calls).messages claim.source).filter
      (fun m => b.beginning group claim.source ≤ m.offset) =
      b.backlog group claim.source ++
        (along (fun b => b.arriving group s claim) b' calls).map Prod.fst ++ rest := by
    rw [hrest, hmessages, List.append_assoc, backlog_append hlog hlater, List.append_assoc]
  have hinOrder : b.backlog group claim.source ++
      (along (fun b => b.arriving group s claim) b' calls).map Prod.fst <+:
      ((b'.run calls).messages claim.source).filter
        fun m => b.beginning group claim.source ≤ m.offset :=
    hfilter ▸ List.prefix_append _ _
  refine ⟨hdelivers, hinOrder, fun hl => ?_, ?_, fun hnot later => ?_⟩
  · rw [hfilter, hall hl, List.append_nil]
  · -- what is received comes from the log in its order
    have hreceived : (along (fun b => b.received claim.channel) b' calls).Sublist
        ((b.backlog group claim.source).take claimCapacity ++
          roomy (along (fun b => b.arriving group s claim) b' calls)) := by
      rw [← hdelivers]
      exact List.sublist_append_left _ _
    have hroomy : (roomy (along (fun b => b.arriving group s claim) b' calls)).Sublist
        ((along (fun b => b.arriving group s claim) b' calls).map Prod.fst) :=
      (List.filter_sublist).map _
    have hsub := (hreceived.trans ((List.take_sublist _ _).append hroomy)).trans
      (hinOrder.sublist.trans List.filter_sublist)
    exact ((hlogs calls).increasing hsub).1
  · have hfeeds := (hc.after h hspares).feeds
    exact ((h.run calls).arriving_of_not_live (lt_size_of_feeds hfeeds) hnot claim later).1

/-- **Joins.**  What a join for different topics comes to that succeeds. -/
theorem Sound.replaces {cluster : ClusterSpec} (h : b.Sound)
    (hlogs : ∀ source (calls : List Call),
      IsLog ((b.run (.join cluster group topics :: calls)).messages source))
    (hd : topics.Nodup) (hj : b.join cluster group topics = (.ok s, b')) :
    b.Replaces group topics s b' := by
  have hsound : b'.Sound := by
    have hperformed := h.perform (.join cluster group topics)
    rw [Broker.perform, hj] at hperformed
    exact hperformed
  rcases b.join_prepares cluster group topics with
    ⟨error, hj'⟩ | ⟨b₀, b₁, b₂, session, hb, rfl, hprepared, hopens, hpending, hj'⟩
  · cases (Prod.mk.inj (hj.symm.trans hj')).1
  · obtain ⟨hs, rfl⟩ := Prod.mk.inj (hj.symm.trans hj')
    have hnoted : b₀.Sound := by
      rw [hb]
      exact h.remains (.of_eq rfl rfl)
    have hsize : b₂.sessions.size = b₀.sessions.size := by
      rw [hprepared.sessions_eq, (stays_closeGroup b₀ group .ended).sessions_size]
    obtain rfl : s = b₀.sessions.size := (Except.ok.inj hs).trans hsize
    have hsession := hnoted.session_opens hprepared
    have hnew := hsession b₀.sessions.size
    rw [if_pos rfl] at hnew
    have hold : ∀ s', b₀.session s' = b.session s' := fun s' => session_congr (by rw [hb]) s'
    have htopics : (b₀.closeGroup group .ended).topics = b.topics := by
      rw [(stays_closeGroup b₀ group .ended).topics_eq, hb]
    refine ⟨fun s' hs' => ?_, ?_, fun group' hne => Option.ext fun s' => ?_, ?_, fun calls hstays => ?_,
      fun claim hclaim calls hspares => ?_⟩
    · rw [hsession, if_neg, hold, if_pos (h.liveSession?_eq_some_iff.1 hs')]
      · exact ⟨rfl, rfl⟩
      · rw [hb]
        exact Nat.ne_of_lt (of_liveSession? hs').1
    · rw [hsound.liveSession?_eq_some_iff, hnew]
      exact ⟨hprepared.live, hprepared.group_eq⟩
    · rw [hsound.liveSession?_eq_some_iff, h.liveSession?_eq_some_iff, hsession, ← hold]
      split
      · rename_i hs'
        refine ⟨fun hl => absurd (hl.2.symm.trans hprepared.group_eq) hne, fun hl => ?_⟩
        exact absurd (lt_size_of_live hl.1) (by simp [hs'])
      · split
        · rename_i hclosed
          exact ⟨fun hl => absurd hl.1 Bool.false_ne_true, fun hl => absurd (hl.2.symm.trans hclosed.2) hne⟩
        · exact Iff.rfl
    · have hpartitions : (b₀.closeGroup group .ended).partitions = b.partitions :=
        funext fun topic => by rw [partitions, htopics, partitions]
      rw [hnew, hpending, hpartitions]
    · refine hsound.handed_append_pending_run ?_ hstays
      rw [Array.size_push, hsize]
      exact Nat.lt_succ_self _
    · rw [hnew] at hclaim
      have hopened := hopens hd
      obtain ⟨-, -, log, hlog, hchannel⟩ := hopened.feeds _ _ (hopened.pending claim hclaim)
      rw [log?_congr htopics] at hlog
      have hstart : (b₀.closeGroup group .ended).startOffset group claim.source =
          b.startOffset group claim.source := by
        rw [startOffset, (commits_closeGroup b₀ group .ended).committed_eq, hb]
        rfl
      have hbacklog : b.backlog group claim.source =
          log.toList.filter fun m => b.startOffset group claim.source ≤ m.offset := by
        rw [backlog, messages, hlog, Option.getD_some]
      rw [hstart, ← hbacklog] at hchannel
      refine Carries.brings hsound ⟨?_, ?_, ?_⟩ ?_ ?_ ?_ hspares
      · rw [hnew]
        exact hopened.pending claim hclaim
      · rw [hnew]
        exact hprepared.group_eq
      · exact congrArg Channel.read hchannel
      · exact congrArg Channel.queue hchannel
      · exact messages_eq_of_log? (log?_congr (hopened.topics_eq.trans htopics) _)
      · intro calls
        have hlogs := hlogs claim.source calls
        rw [Broker.run, List.foldl_cons, Broker.perform, hj] at hlogs
        exact hlogs

/-- **Claims.**  Whatever a broker was asked, the messages of each partition have their places as
offsets.  When the session of a group is ended, the group has no live one.  And when a group joins for
different topics, then if the join fails nothing changes but that the attempt is noted and the error that
was waiting for it is used up.  If it succeeds the group has a new session in the place of the one
it had, with a claim for each partition of each topic, in order; and whatever is asked after that, each
claim brings what the log held from the marked offset on, and what is added while the session is the live
one, in the order of the log and nothing twice.  Left out is only what came in while the channel was
full.  So a group that has marked an offset behind the end of the log gets all that is added there. -/
theorem claims_bring (calls : List Call) (cluster : ClusterSpec) (group : String)
    {topics : List String} (hd : topics.Nodup) :
    let b := ({} : Broker).run calls
    (∀ source, IsLog (b.messages source)) ∧
    (∀ how, (b.closeGroup group how).liveSession? group = none) ∧
    match b.join cluster group topics with
    | (.error _, b') => b' =
        { b with
          joins := b.joins.push ⟨group, cluster.brokers, topics⟩
          joinFailures := b.joinFailures.tail }
    | (.ok s, b') => b.Replaces group topics s b' := by
  intro b
  have h : b.Sound := sound_run calls
  refine ⟨isLog_run calls, fun how => ?_, ?_⟩
  · rw [Option.eq_none_iff_forall_ne_some]
    intro s hs
    have hclosed := h.remains (.closeGroup h group how)
    obtain ⟨hl, hg⟩ := hclosed.liveSession?_eq_some_iff.1 hs
    exact h.group_ne_of_closeGroup hl hg
  · rcases hj : b.join cluster group topics with ⟨error | s, b'⟩
    · rcases b.join_cases cluster group topics with ⟨error', hj'⟩ | ⟨-, -, _, _, _, -, -, hj'⟩
      · exact (Prod.mk.inj (hj.symm.trans hj')).2
      · cases (Prod.mk.inj (hj.symm.trans hj')).1
    · refine h.replaces (fun source later => ?_) hd hj
      have hlog := isLog_run (calls ++ .join cluster group topics :: later) source
      rw [run_append] at hlog
      exact hlog

/-! ## One claim -/

/-- Group `g` joins for topic `t`. -/
def joinedAfter (calls : List Call) : Broker := ((({} : Broker).run calls).join {} "g" ["t"]).2

theorem join_eq_ok (h : ((({} : Broker).run calls).join {} "g" ["t"]).1.toOption = some s) :
    (({} : Broker).run calls).join {} "g" ["t"] = (.ok s, joinedAfter calls) := by
  rw [joinedAfter]
  rcases hj : (({} : Broker).run calls).join {} "g" ["t"] with ⟨error | s', b'⟩ <;> rw [hj] at h
  · cases h
  · obtain rfl := Option.some.inj h
    rfl

/-- Two messages come in, and the group marks the second one as the next. -/
def twoMessages : List Call :=
  [.createTopic "t" 1, .deliver 0 ⟨"t", 0⟩ .empty ⟨[]⟩, .deliver 0 ⟨"t", 0⟩ .empty ⟨[]⟩,
    .mark "g" ⟨"t", 0⟩ 1]

/-- The group joins; one more message comes in, its session ends, another message comes in, and all that
is there is read. -/
theorem claims_bring_two : ["t"].Nodup ∧
    (({} : Broker).run twoMessages).join {} "g" ["t"] = (.ok 0, joinedAfter twoMessages) ∧
    (({} : Broker).run twoMessages).Replaces "g" ["t"] 0 (joinedAfter twoMessages) ∧
    ((joinedAfter twoMessages).session 0).pending = [⟨⟨"t", 0⟩, 0⟩] ∧
    (along (fun b => b.received 0) (joinedAfter twoMessages)
      [.deliver 0 ⟨"t", 0⟩ .empty ⟨[]⟩, .closeGroup "g" .ended, .deliver 0 ⟨"t", 0⟩ .empty ⟨[]⟩,
        .receive 0, .receive 0, .receive 0]).map Message.offset = [1, 2] := by
  have hd : ["t"].Nodup := by decide
  have hj : (({} : Broker).run twoMessages).join {} "g" ["t"] = (.ok 0, joinedAfter twoMessages) :=
    join_eq_ok (by decide +kernel)
  have hbring := (claims_bring twoMessages {} "g" hd).2.2
  rw [hj] at hbring
  exact ⟨hd, hj, hbring, by decide +kernel, by decide +kernel⟩

/-- A group that has marked an offset behind the end of a log gets messages below it. -/
theorem brought_below_mark : ¬ ∀ (calls later : List Call) (cluster : ClusterSpec) (group : String)
    (topics : List String) (s : SessionId) (b' : Broker) (claim : Claim), topics.Nodup →
    (({} : Broker).run calls).join cluster group topics = (.ok s, b') →
    claim ∈ (b'.session s).pending →
    (∀ call ∈ later, call.spares claim.source.topic = true) →
    ∀ m ∈ along (fun b => b.received claim.channel) b' later,
      (({} : Broker).run calls).startOffset group claim.source ≤ m.offset := by
  intro hall
  have hbelow := hall [.createTopic "t" 1, .mark "g" ⟨"t", 0⟩ 5]
    [.deliver 0 ⟨"t", 0⟩ .empty ⟨[]⟩, .receive 0] {} "g" ["t"] 0
    (joinedAfter [.createTopic "t" 1, .mark "g" ⟨"t", 0⟩ 5]) ⟨⟨"t", 0⟩, 0⟩
    (by decide) (join_eq_ok (by decide +kernel)) (by decide +kernel) (by decide +kernel) ⟨0, .empty, ⟨[]⟩, some 0⟩
    (by decide +kernel)
  exact absurd hbelow (by decide +kernel)

end ConsumerGroup.Broker
