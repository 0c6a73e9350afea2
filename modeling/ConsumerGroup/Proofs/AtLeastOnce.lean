import ConsumerGroup.Proofs.Claim.Processed
import ConsumerGroup.Proofs.Engine.Service

/-!
# At least once

Sessions of a group come and go.  Each begins at the offset that the group has marked, handlers of
earlier sessions go on to end and to mark, and a claim may be given up with messages in it.  Whatever
the order, what the group has marked never passes a message that no session has seen to:
`at_least_once`.

Which session sees to it is open.  A message that a session gave up may be seen to by a handler that
an earlier session left behind: `not_before_later_session`.
-/

namespace ConsumerGroup.Engine

/-- Claim loop number `i` reads a partition for session `s` of a group. -/
structure Reads (e : Engine) (group : String) (source : TopicPartition) (s : SessionId) (i : Nat)
    (l : ClaimLoop) : Prop where
  /-- the loop is that number's -/
  loop : e.loops[i]? = some l
  /-- it is one of the group -/
  group_eq : l.group = group
  /-- for the partition -/
  source_eq : l.source = source
  /-- the session is one of the group -/
  session : (e.broker.session s).group = group
  /-- and feeds the loop -/
  feeds : (e.broker.session s).feeds.get? source = some l.channel

/-- Claim loop number `i` has passed over a message, and that is for another group. -/
def PassedOver (e : Engine) (i : Nat) (l : ClaimLoop) (m : Message) : Prop :=
  .skipped i m.offset ∈ e.events ∧
    ∀ fresh, (Envelope.ofMessage fresh l.source m).isAddressedTo l.group = false

/-- A handling of claim loop number `i` has processed a message: the handler has returned, and the
redelivery, if there is one, has ended. -/
def ProcessedBy (e : Engine) (i : Nat) (l : ClaimLoop) (m : Message) : Prop :=
  ∃ (n : Nat) (t : Handling) (fresh : TraceId), e.handlings[n]? = some t ∧ t.loop = i ∧
    t.envelope = .ofMessage fresh l.source m ∧ .completed n ∈ e.events ∧
    Processed l.redeliverer n t.envelope e.events

variable {w : World} {group : String} {source : TopicPartition} {e : Engine} {o : Offset}

section

variable {i : Nat} {l : ClaimLoop} {log : List Message} {m : Message}

/-- A message of the log that is settled by a claim loop has been passed over or processed. -/
theorem seenTo_of_settled (hr : ClaimView.Reachable w i (e.view i l)) (hlog : IsLog log)
    (hsub : ∀ m ∈ (e.broker.channel l.channel).arrived, m ∈ log) (hm : m ∈ log)
    (hs : Settled i e.events m.offset) : e.PassedOver i l m ∨ e.ProcessedBy i l m := by
  rcases hs with hskipped | ⟨n, hentered, hcompleted⟩
  · obtain ⟨m', hm', hoff, haddr⟩ := hr.comesFrom.skipped _ hskipped
    obtain rfl := hlog.eq_of_offset_eq (hsub m' hm') hm hoff
    exact Or.inl ⟨hskipped, haddr⟩
  · obtain ⟨t, ht, hoff⟩ := (hr.recorded.entered_iff _ n).1 hentered
    obtain ⟨m', hm', ⟨fresh, henv⟩, -⟩ := hr.comesFrom.handled n t ht
    have hoff' : m'.offset = m.offset := by rw [← hoff, henv, Envelope.offset_ofMessage]
    obtain rfl := hlog.eq_of_offset_eq (hsub m' hm') hm hoff'
    obtain ⟨ht', hloop⟩ := handlingOf?_eq_some.1 ht
    exact Or.inr ⟨n, t, fresh, ht', hloop, henv, hcompleted, hr.processed ht hcompleted⟩

/-- A message of the log that had to wait for a token is for the group. -/
theorem isAddressed_of_parked (hr : ClaimView.Reachable w i (e.view i l)) (hlog : IsLog log)
    (hsub : ∀ m ∈ (e.broker.channel l.channel).arrived, m ∈ log) (hm : m ∈ log)
    (hp : .parked i m.offset ∈ e.events) :
    ∃ fresh, (Envelope.ofMessage fresh l.source m).isAddressedTo l.group = true := by
  obtain ⟨env, ⟨m', hm', ⟨fresh, henv⟩, haddr⟩, hoff⟩ := hr.comesFrom.parked _ hp
  rw [henv, Envelope.offset_ofMessage] at hoff
  obtain rfl := hlog.eq_of_offset_eq (hsub m' hm') hm hoff
  exact ⟨fresh, henv ▸ haddr⟩

/-- A message that a claim loop has processed was entered there. -/
theorem ProcessedBy.entered (h : e.ProcessedBy i l m) (hr : ClaimView.Reachable w i (e.view i l)) :
    ∃ n, .entered i m.offset n ∈ e.events := by
  obtain ⟨n, t, fresh, ht, hloop, henv, -, -⟩ := h
  refine ⟨n, (hr.recorded.entered_iff _ n).2 ⟨t, handlingOf?_eq_some.2 ⟨ht, hloop⟩, ?_⟩⟩
  rw [henv, Envelope.offset_ofMessage]

end

/-- Each session has one claim loop for a partition. -/
theorem Reads.unique {s : SessionId} {i i' : Nat} {l l' : ClaimLoop} (h : e.Reads group source s i l)
    (h' : e.Reads group source s i' l') (hsound : e.Sound) : i' = i ∧ l' = l := by
  have hi : i' = i := by
    by_contra hne
    exact hsound.channel_ne h'.loop h.loop hne (Option.some.inj (h'.feeds.symm.trans h.feeds))
  subst hi
  exact ⟨rfl, Option.some.inj (h'.loop.symm.trans h.loop)⟩

/-- **At least once.**  Consumers read a topic that is not made anew, and no claim of a group on a
partition has lost a message for want of room.  Then each message below the offset that the group has
marked has been passed over or processed in some session of the group.

If a claim loop took the message and gave it up for want of a token, it was another session that
processed it. -/
theorem at_least_once (h : Service w source.topic e) (hlost : e.broker.NothingLost group source)
    {log : Array Message} (hlog : e.broker.log? source = some log)
    (ho : e.broker.committed.get? (group, source) = some o) {m : Message} (hm : m ∈ log)
    (hlt : m.offset < o) :
    (∃ s i l, e.Reads group source s i l ∧ (e.PassedOver i l m ∨ e.ProcessedBy i l m)) ∧
    ∀ s i l, e.Reads group source s i l → .parked i m.offset ∈ e.events →
      (∀ n, .entered i m.offset n ∉ e.events) →
      ∃ s' i' l', s' ≠ s ∧ e.Reads group source s' i' l' ∧ e.ProcessedBy i' l' m := by
  have hserving : e.Serving group source := serving_of_service h
  have hislog := hserving.broker.logged.isLog log hlog
  rw [← Array.mem_toList_iff] at hm
  have hsub : ∀ {i : Nat} {l : ClaimLoop}, e.loops[i]? = some l → l.group = group →
      l.source = source → ∀ m ∈ (e.broker.channel l.channel).arrived, m ∈ log.toList := by
    intro i l hl hg hs m hm
    obtain ⟨log', base, live, hlog', -, hwindow, -⟩ := hserving.window hlost hl hg hs
    obtain rfl := Option.some.inj (hlog.symm.trans hlog')
    exact (hwindow.comes.sublist.trans (List.drop_sublist _ _)).subset hm
  have hseen : ∃ s i l, e.Reads group source s i l ∧ (e.PassedOver i l m ∨ e.ProcessedBy i l m) := by
    obtain ⟨k, hk⟩ := List.mem_iff_getElem?.1 hm
    have hoff := hislog k m hk
    obtain ⟨-, hdone⟩ := hserving.markedDone (fun _ _ => h.reachable) hlost o ho
    obtain ⟨i, l, hl, hg, hs, hsettled⟩ := hdone k (hoff ▸ hlt)
    obtain ⟨s, hsession, hfeeds⟩ := hserving.loops i l hl
    refine ⟨s, i, l, ⟨hl, hg, hs, hsession.trans hg, hs ▸ hfeeds⟩, ?_⟩
    exact seenTo_of_settled (h.reachable hl) hislog (hsub hl hg hs) hm (hoff ▸ hsettled)
  refine ⟨hseen, ?_⟩
  intro s i l hreads hparked hnot
  obtain ⟨s', i', l', hreads', hpassed | hprocessed⟩ := hseen
  · obtain ⟨fresh, haddr⟩ := isAddressed_of_parked (h.reachable hreads.loop) hislog
      (hsub hreads.loop hreads.group_eq hreads.source_eq) hm hparked
    have hother := hpassed.2 fresh
    rw [hreads'.source_eq, hreads'.group_eq, ← hreads.source_eq, ← hreads.group_eq, haddr] at hother
    cases hother
  · refine ⟨s', i', l', ?_, hreads', hprocessed⟩
    rintro rfl
    obtain ⟨rfl, rfl⟩ := hreads.unique hreads' h.sound
    obtain ⟨n, hn⟩ := hprocessed.entered (h.reachable hreads.loop)
    exact hnot n hn

/-! ## A handler that is left behind -/

/-- Three messages for two tokens.  The first session enters all of them and is over before the first
and the third are done; the second gives the third up.  Then the handlers of the first session end. -/
def leftBehind : List Happening :=
  [.act (.createTopic "t" 1), .act (.start .sample),
    .task (.member 0), .task (.member 0), .act (.deliver ⟨"t", 0⟩ .empty ⟨[]⟩),
    .act (.deliver ⟨"t", 0⟩ .empty ⟨[]⟩), .act (.deliver ⟨"t", 0⟩ .empty ⟨[]⟩), .task (.loop 0),
    .task (.loop 0), .task (.loop 0), .task (.handling 0), .task (.handling 1), .act (.release 1),
    .task (.handling 1), .task (.loop 0), .task (.handling 2),
    -- the session ends, and its loop waits a second for its handlings
    .act (.closeGroup "g" .ended), .task (.member 0), .task (.loop 0), .pass 1000, .task (.loop 0),
    -- the member joins again
    .task (.member 0), .pass 3000, .task (.member 0), .task (.member 0), .task (.member 0),
    .task (.loop 1), .task (.loop 1), .task (.loop 1),
    -- and this session ends, too
    .act (.closeGroup "g" .ended), .task (.member 0), .task (.loop 1),
    .act (.release 0), .task (.handling 0), .act (.release 2), .task (.handling 2)]

theorem service_leftBehind : Service .holding "t" (play .holding {} leftBehind) :=
  Service.new.play (by decide +kernel)

/-- All three messages are marked, and none was lost. -/
theorem marked_leftBehind :
    (play .holding {} leftBehind).broker.NothingLost "g" ⟨"t", 0⟩ ∧
      (play .holding {} leftBehind).broker.committed.get? ("g", ⟨"t", 0⟩) = some 3 ∧
      ∃ log, (play .holding {} leftBehind).broker.log? ⟨"t", 0⟩ = some log ∧
        ∃ m ∈ log, m.offset = 2 := by
  have hlost : (play .holding {} leftBehind).broker.channels.toList.all (·.lost.isEmpty) = true := by
    decide +kernel
  have hlog : ((play .holding {} leftBehind).broker.log? ⟨"t", 0⟩).map
      (fun log => log.toList.map Message.offset) = some [0, 1, 2] := by decide +kernel
  refine ⟨Broker.nothingLost_of_all hlost, by decide +kernel, ?_⟩
  obtain ⟨log, hlog, hoffsets⟩ := Option.map_eq_some_iff.1 hlog
  have hmem : (2 : Offset) ∈ log.toList.map Message.offset := by
    rw [hoffsets]
    decide
  obtain ⟨m, hm, hoff⟩ := List.mem_map.1 hmem
  exact ⟨log, hlog, m, Array.mem_toList_iff.1 hm, hoff⟩

/-- The claim loop of the second session was cancelled when the third message waited for a token. -/
theorem reads_leftBehind : ∃ l, (play .holding {} leftBehind).Reads "g" ⟨"t", 0⟩ 1 1 l ∧
    l.cancelled = true ∧ .parked 1 2 ∈ (play .holding {} leftBehind).events ∧
    ∀ n, .entered 1 2 n ∉ (play .holding {} leftBehind).events := by
  have hloop : ((play .holding {} leftBehind).loops[1]?).map
      (fun l => (l.group, l.source, l.channel, l.cancelled)) = some ("g", ⟨"t", 0⟩, 1, true) := by
    decide +kernel
  obtain ⟨l, hl, heq⟩ := Option.map_eq_some_iff.1 hloop
  simp only [Prod.mk.injEq] at heq
  obtain ⟨hg, hs, hc, hcancelled⟩ := heq
  have hnot : (2 : Offset) ∉ (play .holding {} leftBehind).events.filterMap (Event.entered? 1) := by
    decide +kernel
  have hfeeds : ((play .holding {} leftBehind).broker.session 1).feeds.get? ⟨"t", 0⟩ = some 1 := by
    decide +kernel
  refine ⟨l, ⟨hl, hg, hs, by decide +kernel, ?_⟩, hcancelled, by decide +kernel, ?_⟩
  · rw [hc, hfeeds]
  · intro n hn
    exact hnot (List.mem_filterMap.2 ⟨_, hn, rfl⟩)

/-- The third message is processed all the same: the first session has done so. -/
theorem at_least_once_leftBehind :
    ∃ log m, (play .holding {} leftBehind).broker.log? ⟨"t", 0⟩ = some log ∧ m ∈ log ∧ m.offset = 2 ∧
      ∃ s i l, s ≠ 1 ∧ (play .holding {} leftBehind).Reads "g" ⟨"t", 0⟩ s i l ∧
        (play .holding {} leftBehind).ProcessedBy i l m := by
  obtain ⟨hlost, ho, log, hlog, m, hm, hoff⟩ := marked_leftBehind
  obtain ⟨l, hreads, -, hparked, hnot⟩ := reads_leftBehind
  have hlt : m.offset < 3 := by
    rw [hoff]
    decide
  obtain ⟨-, hother⟩ := at_least_once service_leftBehind hlost hlog ho hm hlt
  rw [hoff] at hother
  exact ⟨log, m, hlog, hm, hoff, hother 1 1 l hreads hparked hnot⟩

/-- It need not be a later session that processes a message that was given up. -/
theorem not_before_later_session : ¬ ∀ (w : World) (group : String) (source : TopicPartition)
    (e : Engine) (log : Array Message) (o : Offset) (m : Message) (s : SessionId) (i : Nat)
    (l : ClaimLoop),
    Service w source.topic e → e.broker.NothingLost group source → e.broker.log? source = some log →
    e.broker.committed.get? (group, source) = some o → m ∈ log → e.Reads group source s i l →
    l.cancelled = true → .parked i m.offset ∈ e.events → (∀ n, .entered i m.offset n ∉ e.events) →
    m.offset < o →
    ∃ s' i' l', s < s' ∧ e.Reads group source s' i' l' ∧ e.ProcessedBy i' l' m := by
  intro hall
  obtain ⟨hlost, ho, log, hlog, m, hm, hoff⟩ := marked_leftBehind
  obtain ⟨l, hreads, hcancelled, hparked, hnot⟩ := reads_leftBehind
  have hlt : m.offset < 3 := by
    rw [hoff]
    decide
  rw [← hoff] at hparked hnot
  obtain ⟨s', i', l', hlater, hreads', -⟩ := hall .holding "g" ⟨"t", 0⟩
    (play .holding {} leftBehind) log 3 m 1 1 l service_leftBehind hlost hlog ho hm hreads hcancelled hparked hnot hlt
  -- there are but two sessions
  have hsize : (play .holding {} leftBehind).broker.sessions.size = 2 := by decide +kernel
  have hs' := Broker.lt_size_of_feeds hreads'.feeds
  rw [hsize] at hs'
  lia

end ConsumerGroup.Engine
