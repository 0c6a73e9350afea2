import ConsumerGroup.Proofs.Alone

/-!
# The order of commits

What a group marks on a partition rises while its sessions take turns: what a claim marks rises, and a
session begins where the group has marked.  A handler that outlives its session may mark for it when
the next session is further on, and then the group falls back: `not_rising_lateMarks`.

That takes a drain that ran out of time.  If a group has one member and its claims are drained, its
marks rise for good: `commits_in_order`.
-/

namespace ConsumerGroup.Engine

variable {w : World} {group : String} {source : TopicPartition} {e e' e₁ : Engine} {m : Nat}
  {s : SessionId}

/-- A session begins where its group has marked. -/
theorem Joins.draws (hjoins : e.Joins m group s e₁) (hs : Service w source.topic e)
    (hserve : Serve w source.topic e e₁) :
    e₁.broker.Draws source (e.broker.startOffset group source) s := by
  have hopened := (hserve.does hs).broker.opened (Nat.le_of_eq hjoins.session_eq.symm) hjoins.lt_size
    fun group log hlog => hs.startOffset_le group hlog
  rwa [hjoins.group_eq] at hopened

/-- When a session with a claim on the partition joins, it is the last one, and nothing is marked. -/
theorem Joins.upToDate (hjoins : e.Joins m group s e₁) (hs : Service w source.topic e)
    (hserve : Serve w source.topic e e₁)
    (hclaim : ((e₁.broker.session s).feeds.get? source).isSome = true) :
    e₁.UpToDate group source ∧ Rises group source e e₁ := by
  -- a join commits nothing
  have hcommits : e.broker.Commits none e₁.broker := by
    rcases sessions_of_serve hs hserve with hsize | ⟨m', group', -, -, hevents⟩
    · rw [hjoins.size_eq] at hsize
      exact absurd hsize (Nat.succ_ne_self _)
    · cases commits_of_step hs.sound hserve.step with
      | nothing _ _ hc => exact hc
      | marks _ hmarks => exact nomatch hmarks.symm.trans hevents
  obtain ⟨hhistory, hstart⟩ :
      e₁.broker.commitHistory group source = e.broker.commitHistory group source ∧
        e₁.broker.startOffset group source = e.broker.startOffset group source := hcommits.others nofun
  refine ⟨?_, Rises.quiet hhistory hstart⟩
  intro s' c hg hf hnot
  obtain ⟨c', hc'⟩ := Option.isSome_iff_exists.1 hclaim
  have hle : s' ≤ s := by
    have hlt := Broker.lt_size_of_feeds hf
    rw [hjoins.size_eq] at hlt
    rw [hjoins.session_eq]
    exact Nat.le_of_lt_succ hlt
  rcases Nat.lt_or_eq_of_le hle with hlt | rfl
  · exact absurd (isFollowed_of_lt hlt hjoins.group_eq hc') hnot
  · rw [hstart]
    exact Or.inr (hjoins.draws hs hserve)

/-- What draws from some offset on does so for good. -/
theorem ServeWithin.draws {P : Engine → Prop} {base : Offset} (h : ServeWithin w source.topic P e e')
    (hs : Service w source.topic e) (hlt : s < e.broker.sessions.size)
    (hd : e.broker.Draws source base s) :
    s < e'.broker.sessions.size ∧ e'.broker.Draws source base s := by
  induction h with
  | refl => exact ⟨hlt, hd⟩
  | tail hrun hserve _ ih =>
    obtain ⟨hlt', hd'⟩ := ih
    have hs' := hrun.service hs
    have hdoes := hserve.does hs'
    exact ⟨Nat.lt_of_lt_of_le hlt' hdoes.broker.sessions.size_le,
      hd'.change hs'.wired hlt' hdoes.broker⟩

/-- All marks of a broker that has just been made have risen if they have risen since then. -/
theorem Rises.sorted (h : Rises group source {} e) :
    (e.broker.commitHistory group source).Pairwise (· < ·) ∧
      ∀ o ∈ e.broker.commitHistory group source, o ≤ e.broker.startOffset group source := by
  obtain ⟨marks, heq, hsorted, hbounds⟩ := h.marks
  have hnone : ({} : Engine).broker.commitHistory group source = [] := rfl
  rw [hnone, List.nil_append] at heq
  rw [heq]
  exact ⟨hsorted, fun o ho => (hbounds o ho).2⟩

/-- **Commits in order.**  At a broker that serves a topic:

* what a claim marks rises;
* a session of a group begins where the group has marked: what comes in on its claim lies there or
  above, and so do its marks;
* from then on all marks of the group on the partition rise, as long as none is made for a session
  that another has followed;
* so, if none ever is, all marks of the group there have risen, and no session begins below one of
  them.  In particular that is so if the group has one member, and its claims that are over were
  drained. -/
theorem commits_in_order (h : Service w source.topic e) :
    (∀ s i l, e.Reads group source s i l → ∀ o earlier, .marked i o :: earlier <:+ e.events →
      ∀ o', .marked i o' ∈ earlier → o' < o) ∧
    (∀ m s e₁ e', Serve w source.topic e e₁ → e.Joins m group s e₁ →
      (ServeWithin w source.topic (fun _ => True) e₁ e' → ∀ i l, e'.Reads group source s i l →
        (∀ m ∈ (e'.broker.channel l.channel).arrived, e.broker.startOffset group source ≤ m.offset) ∧
        ∀ o, .marked i o ∈ e'.events → e.broker.startOffset group source < o) ∧
      (((e₁.broker.session s).feeds.get? source).isSome = true →
        ServeWithin w source.topic (InTurn group source) e₁ e' → Rises group source e e')) ∧
    (ServeWithin w source.topic (InTurn group source) {} e ∨
        ServeWithin w source.topic (fun e => e.Alone group ∧ e.Drained group source) {} e →
      (e.broker.commitHistory group source).Pairwise (· < ·) ∧
        ∀ o ∈ e.broker.commitHistory group source, o ≤ e.broker.startOffset group source) := by
  refine ⟨?_, ?_, ?_⟩
  · intro s i l hreads o earlier ho o' ho'
    exact lt_of_marked h hreads ho ho'
  · intro m s e₁ e' hserve hjoins
    have hs₁ := hserve.service h
    refine ⟨?_, ?_⟩
    · intro hrun i l hreads
      obtain ⟨-, hdraws⟩ := hrun.draws hs₁ hjoins.lt_size (hjoins.draws h hserve)
      obtain ⟨log, -, -, -, hge⟩ := hdraws l.channel hreads.feeds
      exact ⟨hge, fun o ho => hreads.base_lt (hrun.service hs₁) hdraws ho⟩
    · intro hclaim hrun
      obtain ⟨hup, hrises⟩ := hjoins.upToDate h hserve hclaim
      exact hrises.trans (hup.run hs₁ hrun).2
  · intro hturns
    have hturns : ServeWithin w source.topic (InTurn group source) {} e :=
      hturns.elim id fun h => (inTurn_of_drained h).2
    exact (upToDate_empty.run .new hturns).2.sorted

/-! ## Sessions that take turns -/

/-- Two messages are handled and marked before the session ends, and its claim is drained. -/
def firstTurn : List Happening :=
  [.act (.createTopic "t" 1), .act (.start .sample),
    .task (.member 0), .task (.member 0), .act (.deliver ⟨"t", 0⟩ .empty ⟨[]⟩),
    .act (.deliver ⟨"t", 0⟩ .empty ⟨[]⟩), .task (.loop 0), .task (.loop 0), .task (.handling 0),
    .task (.handling 1), .act (.release 0), .task (.handling 0), .act (.release 1),
    .task (.handling 1), .act (.closeGroup "g" .ended), .task (.member 0), .task (.loop 0),
    .task (.member 0), .pass 3000, .task (.member 0)]

/-- The member joins again. -/
def nextJoin : List Happening := firstTurn ++ [.task (.member 0)]

/-- A third message comes in, is handled and marked. -/
def secondTurn : List Happening :=
  [.task (.member 0), .act (.deliver ⟨"t", 0⟩ .empty ⟨[]⟩), .task (.loop 1), .task (.handling 2),
    .act (.release 2), .task (.handling 2)]

/-- In its step after the first turn the member joins. -/
theorem joins_nextJoin :
    Serve .holding "t" (play .holding {} firstTurn) (play .holding {} nextJoin) ∧
      (play .holding {} firstTurn).Joins 0 "g" 1 (play .holding {} nextJoin) := by
  have hstep : ((play .holding {} firstTurn).step? .holding (.member 0)).isSome = true := by
    decide +kernel
  have hmember : ((play .holding {} firstTurn).members[0]?).map
      (fun member => (member.phase, member.config.groupId)) = some (.joining, "g") := by decide +kernel
  obtain ⟨e₁, he₁⟩ := Option.isSome_iff_exists.1 hstep
  obtain ⟨member, hm, heq⟩ := Option.map_eq_some_iff.1 hmember
  obtain ⟨hp, hg⟩ := Prod.mk.inj heq
  refine ⟨.task (.member 0) ?_, ⟨⟨member, hm, hp, hg⟩, by decide +kernel, by decide +kernel,
    by decide +kernel⟩⟩
  rw [nextJoin, play_append, play_task, he₁, Option.getD_some]

/-- The member is alone, and the first claim is drained, so the second session begins where the first
has marked, and all marks rise. -/
theorem commits_in_order_secondTurn :
    ((play .holding {} firstTurn).broker.commitHistory "g" ⟨"t", 0⟩ = [1, 2] ∧
      Rises "g" ⟨"t", 0⟩ (play .holding {} firstTurn)
        (play .holding (play .holding {} nextJoin) secondTurn)) ∧
    (play .holding (play .holding {} nextJoin) secondTurn).broker.commitHistory "g" ⟨"t", 0⟩ =
        [1, 2, 3] ∧
      ((play .holding (play .holding {} nextJoin) secondTurn).broker.commitHistory
        "g" ⟨"t", 0⟩).Pairwise (· < ·) := by
  obtain ⟨hserve, hjoins⟩ := joins_nextJoin
  have hs : Service .holding "t" (play .holding {} firstTurn) := Service.new.play (by decide +kernel)
  have hs' : Service .holding "t" (play .holding {} nextJoin) := hserve.service hs
  have hdrained : ∀ {e₀ e : Engine}, ServeWithin .holding "t"
      (fun e => e.members.size ≤ 1 ∧ e.Drained "g" ⟨"t", 0⟩) e₀ e →
      ServeWithin .holding "t" (fun e => e.Alone "g" ∧ e.Drained "g" ⟨"t", 0⟩) e₀ e :=
    fun h => h.mono fun _ h => ⟨alone_of_size_le h.1, h.2⟩
  have hfirst : ServeWithin .holding "t" (fun e => e.Alone "g" ∧ e.Drained "g" ⟨"t", 0⟩) {}
      (play .holding {} nextJoin) :=
    hdrained ((ServeWithin.refl (by decide)).play (by decide +kernel) (by decide +kernel))
  have hsecond : ServeWithin .holding "t" (fun e => e.Alone "g" ∧ e.Drained "g" ⟨"t", 0⟩)
      (play .holding {} nextJoin) (play .holding (play .holding {} nextJoin) secondTurn) :=
    hdrained ((ServeWithin.refl (by decide +kernel)).play (by decide +kernel) (by decide +kernel))
  -- so marks are made in turn
  obtain ⟨hsucceeds, hturns⟩ :
      (play .holding {} nextJoin).Succeeds "g" ⟨"t", 0⟩ ∧
        ServeWithin .holding "t" (InTurn "g" ⟨"t", 0⟩) {} (play .holding {} nextJoin) :=
    inTurn_of_drained hfirst
  obtain ⟨-, hturns'⟩ := hsucceeds.run hturns.within hs' hsecond
  refine ⟨⟨by decide +kernel, ?_⟩, by decide +kernel, ?_⟩
  · exact ((commits_in_order hs).2.1 0 1 _ _ hserve hjoins).2 (by decide +kernel) hturns'
  · exact ((commits_in_order (hsecond.service hs')).2.2 (Or.inr (hfirst.trans hsecond))).1

/-! ## Marks that come late -/

/-- The first session enters two messages and runs out of time.  The second has entered them again when
the handlers of the first end, the first of its own after them. -/
def lateMarks : List Happening :=
  [.act (.createTopic "t" 1), .act (.start .sample),
    .task (.member 0), .task (.member 0), .act (.deliver ⟨"t", 0⟩ .empty ⟨[]⟩),
    .act (.deliver ⟨"t", 0⟩ .empty ⟨[]⟩), .task (.loop 0), .task (.loop 0), .task (.handling 0),
    .task (.handling 1), .act (.closeGroup "g" .ended), .task (.member 0), .task (.loop 0),
    .pass 1000, .task (.loop 0), .task (.member 0), .pass 3000, .task (.member 0),
    -- the member joins again
    .task (.member 0), .task (.member 0), .task (.loop 1), .task (.loop 1), .task (.handling 2),
    .task (.handling 3), .act (.release 0), .task (.handling 0), .act (.release 1),
    .task (.handling 1), .act (.release 2), .task (.handling 2)]

/-- When a drain has run out of time, what the group marks may fall back, even if its member is
alone. -/
theorem not_rising_lateMarks : ¬ ∀ (w : World) (group : String) (source : TopicPartition) (e : Engine),
    Service w source.topic e → e.Alone group →
    (e.broker.commitHistory group source).Pairwise (· ≤ ·) := by
  intro hall
  have hs : Service .holding "t" (play .holding {} lateMarks) := Service.new.play (by decide +kernel)
  have halone : (play .holding {} lateMarks).Alone "g" := alone_of_size_le (by decide +kernel)
  have hhistory : (play .holding {} lateMarks).broker.commitHistory "g" ⟨"t", 0⟩ = [1, 2, 1] := by
    decide +kernel
  have hsorted := hall .holding "g" ⟨"t", 0⟩ _ hs halone
  rw [hhistory] at hsorted
  exact absurd hsorted (by decide)

end ConsumerGroup.Engine
