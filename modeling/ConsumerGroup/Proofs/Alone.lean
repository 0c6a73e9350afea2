import ConsumerGroup.Proofs.Claim.Drained
import ConsumerGroup.Proofs.Engine.Retiring
import ConsumerGroup.Proofs.Turnover

/-!
# A group of one member

A group that has one member has one session after the other: the member joins again when all its claim
loops have ended.  A claim that was drained marks nothing any more, so if all are drained then marks
are made in turn.

* `Engine.Alone` — a group has one member at most.
* `Engine.Drained` — its claims on a partition that are over were drained.
* `Engine.Succeeds` — the member asks the last session, and the claim loops of the others have ended.
* `inTurn_of_drained` — in runs through such engines marks are made in turn.
-/

namespace ConsumerGroup.Engine

/-- All members of a group are one. -/
def Alone (group : String) (e : Engine) : Prop :=
  ∀ (m m' : Nat) (member member' : Member), e.members[m]? = some member →
    e.members[m']? = some member' → member.config.groupId = group → member'.config.groupId = group →
    m' = m

/-- The claims of a group on a partition that are over were drained. -/
def Drained (group : String) (source : TopicPartition) (e : Engine) : Prop :=
  ∀ l ∈ e.loops, l.group = group → l.source = source → l.isEnded = true → l.phase = .ended .drained

/-- One session comes after the other. -/
structure Succeeds (group : String) (source : TopicPartition) (e : Engine) : Prop where
  /-- no session follows the one that is asked for claims -/
  last : ∀ (m : Nat) (member : Member) (s : SessionId), e.members[m]? = some member →
    member.config.groupId = group → member.phase = .consuming s → ¬ e.IsFollowed group source s
  /-- the claim loops of a session that others follow have ended -/
  ended : ∀ s i l, e.Reads group source s i l → e.IsFollowed group source s → l.isEnded = true

instance (group : String) (source : TopicPartition) (e : Engine) : Decidable (e.Drained group source) :=
  inferInstanceAs (Decidable (∀ l ∈ e.loops, _))

variable {w : World} {topic group : String} {source : TopicPartition} {e e' e₀ : Engine}
  {s : SessionId}

/-- So it is if there is but one member. -/
theorem alone_of_size_le (h : e.members.size ≤ 1) : e.Alone group := by
  intro m m' member member' hm hm' _ _
  obtain ⟨hlt, -⟩ := Array.getElem?_eq_some_iff.1 hm
  obtain ⟨hlt', -⟩ := Array.getElem?_eq_some_iff.1 hm'
  omega

/-! ## New sessions -/

/-- A member that goes on opens no session, or joins. -/
theorem MemberStep.sessions {m : Nat} {member : Member} {b : Broker} {loops : Array ClaimLoop}
    {phase : MemberPhase} {news : List Event} (hm : e.members[m]? = some member)
    (h : e.MemberStep m member b loops phase news) (hmv : e.Moves m member b loops phase news e') :
    e'.broker.sessions.size = e.broker.sessions.size ∨
      e.Joins m member.config.groupId e.broker.sessions.size e' ∧ e'.loops = e.loops ∧
        e'.events = .joining m :: e.events := by
  have hstays : e.broker.Stays b → e'.broker.sessions.size = e.broker.sessions.size := by
    intro hstays
    rw [hmv.broker_eq, hstays.sessions_size]
  have hnext : ∀ {s answer}, e.broker.nextClaim s = (answer, b) → e.broker.Stays b := by
    intro s answer hn
    have hstays := Broker.stays_nextClaim e.broker s
    rwa [hn] at hstays
  cases h with
  | joinPanics => exact Or.inl (hstays (.refl _))
  | joins hp hj =>
    obtain ⟨rfl, hsize, hgroup⟩ := Broker.session_of_join hj
    rw [← hmv.broker_eq] at hsize hgroup
    exact Or.inr ⟨⟨⟨member, hm, hp, rfl⟩, rfl, hsize, hgroup⟩, hmv.loops_eq,
      events_of_journal_eq hmv.journal_eq⟩
  | joinFails _ hj => exact Or.inl (hstays (Broker.stays_of_join hj))
  | claims _ hn => exact Or.inl (hstays (hnext hn))
  | ends _ hn => exact Or.inl (hstays (hnext hn))
  | restarts => exact Or.inl (hstays (Broker.stays_dropSession _ _))
  | finishes => exact Or.inl (hstays (Broker.stays_dropSession _ _))
  | retries => exact Or.inl (hstays (.refl _))
  | stops _ hb =>
    rcases hb with rfl | ⟨s, rfl⟩
    · exact Or.inl (hstays (.refl _))
    · exact Or.inl (hstays (Broker.stays_dropSession _ _))

/-- Nor does anything from outside open a session. -/
theorem sessions_act (hw : e.broker.Wired) (a : Act) (ha : a.Serves topic e) :
    (e.act a).broker.sessions.size = e.broker.sessions.size := by
  cases a with
  | deliver source payload headers =>
    unfold act
    dsimp only
    split
    · rename_i happend
      obtain ⟨_, -, -, happends⟩ := hw.append_inv happend
      exact congrArg Array.size happends.sessions_eq
    · rfl
  | closeGroup group how => exact (Broker.stays_closeGroup _ group how).sessions_size
  | finishSession => exact ha.elim
  | offerClaim => exact ha.elim
  | release n =>
    obtain ⟨handlings, hrelease, -⟩ := e.releaseHandling_inv n
    rw [act, hrelease]
  | _ => rfl

/-- **Sessions.**  A step opens no session, or a member joins in it and does nothing else. -/
theorem sessions_of_serve (hs : Service w topic e) (h : Serve w topic e e') :
    e'.broker.sessions.size = e.broker.sessions.size ∨
      ∃ m group, e.Joins m group e.broker.sessions.size e' ∧ e'.loops = e.loops ∧
        e'.events = .joining m :: e.events := by
  cases h with
  | task t ht =>
    cases t with
    | member m =>
      obtain ⟨member, b, loops, phase, news, hm, hstep, hmv⟩ := stepMember?_inv ht
      exact (hstep.sessions hm hmv).imp_right fun hjoins => ⟨m, _, hjoins⟩
    | loop i =>
      obtain ⟨l, l', queue, env?, news, -, -, hgoes⟩ :=
        stepLoop?_inv ht (hs.sound.fits i) fun l hl => hs.sound.channel_lt hl
      exact Or.inl (congrArg Array.size hgoes.broker.sessions_eq)
    | handling n =>
      obtain ⟨t, l, phase?, startedAt, news, -, -, -, hcomes⟩ :=
        stepHandling?_inv ht (hs.sound.loop_lt n)
      cases hcomes with
      | waits hh => exact Or.inl (congrArg Array.size hh.grows.2)
      | completes _ hh => exact Or.inl (congrArg Array.size hh.grows.2)
  | act a ha => exact Or.inl (sessions_act hs.wired a ha)
  | tick => exact Or.inl rfl

/-- A session that others follow after a step was followed before, or the step is a join. -/
theorem IsFollowed.of_serve (h : e'.IsFollowed group source s) (hs : Service w source.topic e)
    (hserve : Serve w source.topic e e') :
    e.IsFollowed group source s ∨ ∃ m, e.Joins m group e.broker.sessions.size e' ∧
      e'.loops = e.loops ∧ e'.events = .joining m :: e.events := by
  obtain ⟨s', hs', hlt, hg, hf⟩ := h
  have hextends := (hserve.does hs).broker.sessions
  by_cases hold : s' < e.broker.sessions.size
  · rw [hextends.group_eq s' hold] at hg
    rw [hextends.feeds_eq s' hold] at hf
    exact Or.inl ⟨s', hold, hlt, hg, hf⟩
  · rcases sessions_of_serve hs hserve with hsize | ⟨m, group', hjoins, hloops, hevents⟩
    · exact absurd (hsize ▸ hs') hold
    · rw [hjoins.size_eq] at hs'
      obtain rfl : s' = e.broker.sessions.size :=
        Nat.le_antisymm (Nat.le_of_lt_succ hs') (Nat.le_of_not_lt hold)
      obtain rfl : group' = group := hjoins.group_eq.symm.trans hg
      exact Or.inr ⟨m, hjoins, hloops, hevents⟩

/-- A claim that is read after a step was read before, if its loop was there. -/
theorem Reads.of_serve {i : Nat} {l l' : ClaimLoop} (h : e'.Reads group source s i l')
    (hs : Service w source.topic e) (hserve : Serve w source.topic e e') (hl : e.loops[i]? = some l) :
    e.Reads group source s i l := by
  obtain ⟨l'', hl'', hsame, -⟩ := (advances_of_step hs.sound hserve.step).sameClaim hl
  obtain rfl := Option.some.inj (h.loop.symm.trans hl'')
  have hserving : e.Serving group source := serving_of_service hs
  obtain ⟨s₀, hsession, hfeeds⟩ := hserving.loops i l hl
  have hg := hsame.group_eq.symm.trans h.group_eq
  have hsource := hsame.source_eq.symm.trans h.source_eq
  rw [hsource] at hfeeds
  -- a channel is that of one session only
  obtain rfl : s₀ = s := by
    have hkept := (hserve.does hs).broker.sessions.feeds_eq s₀ (Broker.lt_size_of_feeds hfeeds)
    exact ((hserve.service hs).wired.inj s₀ s source source l'.channel
      (by rw [hkept, hfeeds, hsame.channel_eq]) h.feeds).1
  exact ⟨hl, hg, hsource, hsession.trans hg, hfeeds⟩

/-! ## One session after the other -/

/-- When the only member of a group joins, all claim loops of the group have ended. -/
theorem Joins.isEnded {m : Nat} (h : e.Joins m group s e') (hrun : Run w {} e) (halone : e.Alone group)
    {i : Nat} {l : ClaimLoop} (hl : e.loops[i]? = some l) (hg : l.group = group) :
    l.isEnded = true := by
  obtain ⟨member, hm, hp, hgroup⟩ := h.joining
  obtain ⟨member', hm', hof⟩ := (sound_of_run isFresh_empty.sound hrun).employed i l hl
  have heq := halone m l.member member member' hm hm' hgroup (hof.group_eq.symm.trans hg)
  exact (retires_of_run isFresh_empty hrun).idle m _ ⟨member, hm, rfl⟩ (hp ▸ trivial) i l hl heq

/-- One step of a group that has one member. -/
theorem Succeeds.step (h : e.Succeeds group source) (hs : Service w source.topic e)
    (hserve : Serve w source.topic e e') (halone : e.Alone group) :
    e'.Succeeds group source := by
  have hdoes := hserve.does hs
  refine ⟨?_, ?_⟩
  · intro m member s hm hg hp hfollowed
    rcases hdoes.members m member s hm hp with ⟨member', hm', hp', hconfig⟩ | hjoins
    · rcases hfollowed.of_serve hs hserve with hold | ⟨m', hjoins, -⟩
      · exact h.last m member' s hm' (hconfig ▸ hg) hp' hold
      · -- the member that joins is another one
        obtain ⟨member'', hm'', hp'', hg''⟩ := hjoins.joining
        obtain rfl := halone m m' member' member'' hm' hm'' (hconfig ▸ hg) hg''
        obtain rfl := Option.some.inj (hm'.symm.trans hm'')
        exact nomatch hp'.symm.trans hp''
    · obtain ⟨s', hs', hlt, -⟩ := hfollowed
      rw [hjoins.size_eq] at hs'
      rw [hjoins.session_eq] at hlt
      exact Nat.not_lt_of_le (Nat.le_of_lt_succ hs') hlt
  · intro s i l' hreads hfollowed
    rcases hl : e.loops[i]? with _ | l
    · -- the claim has just been handed out for the session that the member asks
      obtain ⟨m, member, s₁, claim, b, hm, hp, ht, hn, -, rfl⟩ :=
        exists_claim_of_step hs.sound hserve.step hl hreads.loop
      obtain ⟨rest, hpending, -⟩ := Broker.pending_of_nextClaim hn
      have hfeeds := hs.wired.pending s₁ claim (hpending ▸ List.mem_cons_self)
      have hkept := hdoes.broker.sessions.feeds_eq s₁ (Broker.lt_size_of_feeds hfeeds)
      obtain rfl : s₁ = s := ((hserve.service hs).wired.inj _ _ _ _ _ (hkept ▸ hfeeds) hreads.feeds).1
      rcases hfollowed.of_serve hs hserve with hold | ⟨-, -, hloops, -⟩
      · exact absurd hold (h.last m member s₁ hm hreads.group_eq hp)
      · rw [← hloops, hreads.loop] at hl
        cases hl
    · obtain ⟨l'', hl'', hturn⟩ := loopTurn_of_step hs.sound hserve.step hl
      obtain rfl := Option.some.inj (hreads.loop.symm.trans hl'')
      have hreads₀ := hreads.of_serve hs hserve hl
      have hended : l.isEnded = true := by
        rcases hfollowed.of_serve hs hserve with hold | ⟨m, hjoins, -⟩
        · exact h.ended s i l hreads₀ hold
        · exact hjoins.isEnded hs.run halone hl hreads₀.group_eq
      obtain ⟨how, hp⟩ := exists_of_isEnded hended
      rw [ClaimLoop.isEnded, hturn.ended hp]

/-- At a broker that has just been made there is no session. -/
theorem succeeds_empty : ({} : Engine).Succeeds group source where
  last := by simp
  ended s i l hreads := absurd hreads.loop (by simp)

/-! ## Claims that were drained -/

/-- A step does not mark for a claim that has been drained. -/
theorem not_marked_of_drained (hs : Service w source.topic e) (hserve : Serve w source.topic e e')
    {i : Nat} {l : ClaimLoop} (hreads : e.Reads group source s i l) (hp : l.phase = .ended .drained)
    {o : Offset} {news : List Event} : e'.events ≠ .marked i o :: (news ++ e.events) := by
  intro hevents
  have hadv := advances_of_step hs.sound hserve.step
  obtain ⟨l', hl', hmoves⟩ := hadv.moves i l hreads.loop
  obtain ⟨l'', hreads'⟩ := hreads.serve (hserve.does hs).broker.sessions hadv
  have hmark : .marked i o :: (news ++ e.events) <:+ e'.events := hevents ▸ List.suffix_refl _
  have hold := ClaimView.marked_of_drained hmoves (hs.reachable hreads.loop) hp o
    (hmark.subset List.mem_cons_self)
  exact Int.lt_irrefl o
    (lt_of_marked (hserve.service hs) hreads' hmark (List.mem_append_right news hold))

/-- One step of a group whose claims are drained. -/
theorem InTurn.step (h : e.InTurn group source) (hs : Service w source.topic e)
    (hserve : Serve w source.topic e e') (hsucceeds : e.Succeeds group source)
    (hdrained : e.Drained group source) : e'.InTurn group source := by
  intro i o earlier hevents s l' hreads hfollowed
  have hold : e.IsFollowed group source s := by
    refine (hfollowed.of_serve hs hserve).resolve_right ?_
    rintro ⟨m, -, -, hjoining⟩
    exact nomatch hevents.symm.trans hjoining
  cases commits_of_step hs.sound hserve.step with
  | @nothing news hnews hnot _ =>
    cases news with
    | nil =>
      -- the mark is an earlier one
      have hevents₀ : e.events = .marked i o :: earlier := hnews.symm.trans hevents
      have hlt := hs.sound.claim_lt (.marked i o) (by simp [hevents₀]) i rfl
      exact h i o earlier hevents₀ s _
        (hreads.of_serve hs hserve (Array.getElem?_eq_getElem hlt)) hold
    | cons event news =>
      obtain ⟨rfl, -⟩ := List.cons.inj (hevents.symm.trans hnews)
      exact hnot i o List.mem_cons_self
  | marks hl hnews =>
    have heq := (List.cons.inj (hevents.symm.trans hnews)).1
    obtain ⟨rfl, rfl⟩ := Event.marked.inj heq
    have hreads₀ := hreads.of_serve hs hserve hl
    have hp := hdrained _ (Array.mem_of_getElem? hl) hreads₀.group_eq hreads₀.source_eq
      (hsucceeds.ended s i _ hreads₀ hold)
    exact not_marked_of_drained hs hserve hreads₀ hp hnews

/-- A run of a group that has one member whose claims are drained. -/
theorem Succeeds.run (h₀ : e₀.Succeeds group source) (hturn : e₀.InTurn group source)
    (hs : Service w source.topic e₀)
    (h : ServeWithin w source.topic (fun e => e.Alone group ∧ e.Drained group source) e₀ e) :
    e.Succeeds group source ∧ ServeWithin w source.topic (InTurn group source) e₀ e := by
  induction h with
  | refl => exact ⟨h₀, .refl hturn⟩
  | tail hrun hserve _ ih =>
    obtain ⟨hsucceeds, hturns⟩ := ih
    obtain ⟨halone, hdrained⟩ := hrun.within
    have hs' := hrun.service hs
    exact ⟨hsucceeds.step hs' hserve halone, hturns.tail hserve
      (hturns.within.step hs' hserve hsucceeds hdrained)⟩

/-- **Alone.**  If a group has one member, and its claims on a partition that are over were drained,
then what the group marks there is marked in turn. -/
theorem inTurn_of_drained
    (h : ServeWithin w source.topic (fun e => e.Alone group ∧ e.Drained group source) {} e) :
    e.Succeeds group source ∧ ServeWithin w source.topic (InTurn group source) {} e :=
  succeeds_empty.run nofun .new h

end ConsumerGroup.Engine
