import ConsumerGroup.Engine.Clock
import ConsumerGroup.Proofs.Engine.Advance

/-!
# What a step is for one task

A step is somebody's doing.  For each member and for each claim loop it is one of a few things:

* `Engine.MemberTurn` — a member goes on, or is told to stop, or has nothing to do with it.
* `Engine.LoopTurn` — a claim loop goes on, or is told to stop, or one of its handlings completes a
  message, or it has nothing to do with it.

What every turn keeps, every run keeps.
-/

namespace ConsumerGroup

/-- The member whose doing an event tells of. -/
def Event.member? : Event → Option Nat
  | joining m | left m _ | restarting m _ => some m
  | _ => none

theorem Event.member?_eq_none_of_claim? {event : Event} {i : Nat} (h : event.claim? = some i) :
    event.member? = none := by
  cases event <;> first | rfl | cases h

theorem Event.member?_eq_none_of_handling? {event : Event} {n : Nat}
    (h : event.handling? = some n) : event.member? = none := by
  cases event <;> first | rfl | cases h

namespace Engine

variable {w : World} {e e' : Engine}

/-! ## Journals -/

/-- What happens from outside is not noted. -/
theorem events_act (e : Engine) (a : Act) : (e.act a).events = e.events := by
  cases a with
  | deliver source payload headers =>
    rw [act]
    split <;> rfl
  | release n =>
    obtain ⟨handlings, hrelease, -⟩ := e.releaseHandling_inv n
    rw [act, hrelease]
    rfl
  | _ => rfl

/-- Nothing that was noted is lost. -/
theorem events_of_step (hs : e.Sound) (h : Step w e e') : ∃ news, e'.events = news ++ e.events := by
  cases h with
  | @task _ t ht =>
    cases t with
    | member m =>
      obtain ⟨member, b, loops, phase, news, -, -, hmv⟩ := stepMember?_inv ht
      exact ⟨news, events_of_journal_eq hmv.journal_eq⟩
    | loop i =>
      obtain ⟨l, l', queue, env?, news, -, -, hgoes⟩ :=
        stepLoop?_inv ht (hs.fits i) fun l hl => hs.channel_lt hl
      exact ⟨news, events_of_journal_eq hgoes.journal_eq⟩
    | handling n =>
      obtain ⟨t, l, phase?, startedAt, news, -, -, -, hcomes⟩ := stepHandling?_inv ht (hs.loop_lt n)
      cases hcomes with
      | waits hh => exact ⟨_, events_of_journal_eq hh.journal_eq⟩
      | completes _ hh => exact ⟨_, events_of_journal_eq hh.journal_eq⟩
  | act a => exact ⟨[], events_act e a⟩
  | tick t _ => exact ⟨[], rfl⟩

theorem events_of_run (hs : e.Sound) (h : Run w e e') : ∃ news, e'.events = news ++ e.events := by
  induction h with
  | refl => exact ⟨[], rfl⟩
  | tail hrun hstep ih =>
    obtain ⟨news, hnews⟩ := ih
    obtain ⟨news', hnews'⟩ := events_of_step (sound_of_run hs hrun) hstep
    exact ⟨news' ++ news, by rw [hnews', hnews, List.append_assoc]⟩

/-- What happens from outside takes no time. -/
theorem now_act (e : Engine) (a : Act) : (e.act a).now = e.now := by
  cases a with
  | deliver source payload headers =>
    rw [act]
    split <;> rfl
  | release n =>
    obtain ⟨handlings, hrelease, -⟩ := e.releaseHandling_inv n
    rw [act, hrelease]
  | _ => rfl

/-! ## Members -/

/-- What a step comes to for member number `m`. -/
inductive MemberTurn (e : Engine) (m : Nat) (member : Member) (e' : Engine) : Member → Prop where
  /-- it is told to stop, or nothing -/
  | told {member' : Member} {news : List Event} :
      member' = member ∨ member' = { member with signalled := true } →
      e'.events = news ++ e.events → (∀ event ∈ news, event.member? ≠ some m) →
      MemberTurn e m member e' member'
  /-- it goes on -/
  | goes {b : Broker} {loops : Array ClaimLoop} {phase : MemberPhase} {news : List Event} :
      e.stepMember? m = some e' → member.isOver = false → member.signalled = false →
      e.MemberStep m member b loops phase news → e.Moves m member b loops phase news e' →
      MemberTurn e m member e' { member with phase }
  /-- it stops -/
  | stops {b : Broker} :
      e.stepMember? m = some e' → member.isOver = false → member.signalled = true →
      b = e.broker ∨ (∃ s, b = e.broker.dropSession s) →
      e.Moves m member b (e.modifyLoopsOf m ({ · with aborted := true })).loops .stopped [] e' →
      MemberTurn e m member e' { member with phase := .stopped }

/-- A member that goes on does one step, and a member that is to stop does nothing else. -/
theorem memberTurn_of_stepMember? {m : Nat} (h : e.stepMember? m = some e') :
    ∃ member member', e.members[m]? = some member ∧ e'.members[m]? = some member' ∧
      e.MemberTurn m member e' member' ∧
      ∀ k, k ≠ m → e'.members[k]? = e.members[k]? := by
  obtain ⟨member, b, loops, phase, news, hm, hstep, hmv⟩ := stepMember?_inv h
  have hgoes := h
  obtain ⟨hlt, -⟩ := Array.getElem?_eq_some_iff.1 hm
  have hothers : ∀ k, k ≠ m → e'.members[k]? = e.members[k]? := by
    intro k hk
    rw [hmv.members_eq, Array.getElem?_setIfInBounds_ne (Ne.symm hk)]
  simp only [stepMember?, hm] at h
  split at h
  · cases h
  · rename_i hover
    rw [Bool.not_eq_true] at hover
    split at h
    · rename_i hsignal
      obtain rfl := Option.some.inj h
      refine ⟨member, _, hm, ?_, .stops hgoes hover hsignal (broker_stopMember e m member)
        ⟨rfl, rfl, rfl, rfl, rfl, rfl⟩, hothers⟩
      simp [stopMember, setMember, modifyLoopsOf, hlt]
    · rename_i hsignal
      rw [Bool.not_eq_true] at hsignal
      refine ⟨member, _, hm, ?_, .goes hgoes hover hsignal hstep hmv, hothers⟩
      rw [hmv.members_eq, Array.getElem?_setIfInBounds_self_of_lt hlt]

/-- What a member notes is about itself. -/
theorem MemberStep.about {m : Nat} {member : Member} {b : Broker} {loops : Array ClaimLoop}
    {phase : MemberPhase} {news : List Event} (h : e.MemberStep m member b loops phase news) :
    ∀ event ∈ news, ∀ k, event.member? = some k → k = m := by
  cases h <;> simp [Event.member?]

/-- What happens to claims leaves members alone. -/
theorem exists_turn_of_members_eq {m : Nat} {member : Member} {news : List Event}
    (hmembers : e'.members = e.members) (hm : e.members[m]? = some member)
    (hevents : e'.events = news ++ e.events) (hnews : ∀ event ∈ news, event.member? ≠ some m) :
    ∃ member', e'.members[m]? = some member' ∧ e.MemberTurn m member e' member' :=
  ⟨member, hmembers ▸ hm, .told (Or.inl rfl) hevents hnews⟩

/-- **Members.**  What a step comes to for a member. -/
theorem memberTurn_of_step {m : Nat} {member : Member} (hs : e.Sound) (h : Step w e e')
    (hm : e.members[m]? = some member) :
    ∃ member', e'.members[m]? = some member' ∧ e.MemberTurn m member e' member' := by
  cases h with
  | @task _ t ht =>
    cases t with
    | member k =>
      obtain ⟨member₁, member₂, hm₁, hm₂, hturn, hothers⟩ := memberTurn_of_stepMember? ht
      by_cases hk : m = k
      · subst hk
        obtain rfl := Option.some.inj (hm.symm.trans hm₁)
        exact ⟨member₂, hm₂, hturn⟩
      · obtain ⟨member', b, loops, phase, news, -, hstep, hmv⟩ := stepMember?_inv ht
        refine ⟨member, (hothers m hk).trans hm, .told (Or.inl rfl)
          (events_of_journal_eq hmv.journal_eq) ?_⟩
        intro event hevent hevent'
        exact hk (hstep.about event hevent m hevent')
    | loop i =>
      obtain ⟨l, l', queue, env?, news, -, hstep, hgoes⟩ :=
        stepLoop?_inv ht (hs.fits i) fun l hl => hs.channel_lt hl
      refine exists_turn_of_members_eq hgoes.members_eq hm (events_of_journal_eq hgoes.journal_eq) ?_
      intro event hevent
      rw [Event.member?_eq_none_of_claim? (hstep.about event hevent).1]
      exact nofun
    | handling n =>
      obtain ⟨t, l, phase?, startedAt, news, -, -, hstep, hcomes⟩ :=
        stepHandling?_inv ht (hs.loop_lt n)
      have habout : ∀ event ∈ news, event.member? ≠ some m := by
        intro event hevent
        rw [Event.member?_eq_none_of_handling? (hstep.about event hevent).2]
        exact nofun
      cases hcomes with
      | waits hh =>
        exact exists_turn_of_members_eq hh.members_eq hm (events_of_journal_eq hh.journal_eq) habout
      | completes _ hh =>
        refine exists_turn_of_members_eq hh.members_eq hm (events_of_journal_eq hh.journal_eq) ?_
        intro event hevent
        simp only [List.mem_append, List.mem_cons, Option.mem_toList, Option.map_eq_some_iff] at hevent
        rcases hevent with ⟨o, -, rfl⟩ | rfl | hevent
        · exact nofun
        · exact nofun
        · exact habout event hevent
  | act a =>
    have hevents : (e.act a).events = [] ++ e.events := events_act e a
    have htold : ∀ member', member' = member ∨ member' = { member with signalled := true } →
        (e.act a).members[m]? = some member' →
        ∃ member', (e.act a).members[m]? = some member' ∧ e.MemberTurn m member (e.act a) member' :=
      fun member' h hm' => ⟨member', hm', .told h hevents (by simp)⟩
    cases a with
    | deliver source payload headers =>
      refine htold member (Or.inl rfl) ?_
      rw [act]
      split <;> exact hm
    | release n =>
      obtain ⟨handlings, hrelease, -⟩ := e.releaseHandling_inv n
      refine htold member (Or.inl rfl) ?_
      rw [act, hrelease]
      exact hm
    | start member' =>
      obtain ⟨hlt, -⟩ := Array.getElem?_eq_some_iff.1 hm
      refine htold member (Or.inl rfl) ?_
      rw [act, Array.getElem?_push, if_neg (Nat.ne_of_lt hlt), hm]
    | signal k =>
      by_cases hk : k = m
      · refine htold { member with signalled := true } (Or.inr rfl) ?_
        rw [act, signal, Array.getElem?_modify, if_pos hk, hm, Option.map_some]
      · refine htold member (Or.inl rfl) ?_
        rw [act, signal, Array.getElem?_modify, if_neg hk, hm]
    | _ => exact htold member (Or.inl rfl) hm
  | tick t _ =>
    have hevents : ({ e with now := t } : Engine).events = [] ++ e.events := rfl
    exact exists_turn_of_members_eq rfl hm hevents (by simp)

/-- What is noted about a member is noted by its own step. -/
theorem stepMember?_of_news {m : Nat} {news : List Event} {event : Event} (hs : e.Sound)
    (h : Step w e e') (hevents : e'.events = news ++ e.events) (hevent : event ∈ news)
    (hm : event.member? = some m) : e.stepMember? m = some e' := by
  have hnews : ∀ {news' : List Event}, e'.events = news' ++ e.events → event ∈ news' :=
    fun h' => List.append_cancel_right (hevents.symm.trans h') ▸ hevent
  cases h with
  | @task _ t ht =>
    cases t with
    | member k =>
      obtain ⟨member, b, loops, phase, news', -, hstep, hmv⟩ := stepMember?_inv ht
      rw [hstep.about event (hnews (events_of_journal_eq hmv.journal_eq)) m hm]
      exact ht
    | loop i =>
      obtain ⟨l, l', queue, env?, news', -, hstep, hgoes⟩ :=
        stepLoop?_inv ht (hs.fits i) fun l hl => hs.channel_lt hl
      have habout := (hstep.about event (hnews (events_of_journal_eq hgoes.journal_eq))).1
      rw [Event.member?_eq_none_of_claim? habout] at hm
      cases hm
    | handling n =>
      obtain ⟨t, l, phase?, startedAt, news', -, -, hstep, hcomes⟩ :=
        stepHandling?_inv ht (hs.loop_lt n)
      have habout : event ∈ news' → e.stepMember? m = some e' := by
        intro hevent'
        rw [Event.member?_eq_none_of_handling? (hstep.about event hevent').2] at hm
        cases hm
      cases hcomes with
      | waits hh => exact habout (hnews (events_of_journal_eq hh.journal_eq))
      | completes _ hh =>
        have hmem := hnews (events_of_journal_eq hh.journal_eq)
        simp only [List.mem_append, List.mem_cons, Option.mem_toList, Option.map_eq_some_iff] at hmem
        rcases hmem with ⟨o, -, rfl⟩ | rfl | hmem
        · cases hm
        · cases hm
        · exact habout hmem
  | act a => cases hnews ((events_act e a).trans (List.nil_append _).symm)
  | tick t _ => cases hnews (List.nil_append _).symm

/-- No member is lost, and none gets another configuration. -/
theorem MemberTurn.like {m : Nat} {member member' : Member} (h : e.MemberTurn m member e' member') :
    member.Like member' ∧ member'.rejoins = member.rejoins := by
  cases h with
  | told h _ _ =>
    rcases h with rfl | rfl
    · exact ⟨⟨rfl, rfl⟩, rfl⟩
    · exact ⟨⟨rfl, rfl⟩, rfl⟩
  | goes => exact ⟨⟨rfl, rfl⟩, rfl⟩
  | stops => exact ⟨⟨rfl, rfl⟩, rfl⟩

/-! ## Claim loops -/

/-- What a step comes to for claim loop number `i`. -/
inductive LoopTurn (e : Engine) (i : Nat) (l : ClaimLoop) (e' : Engine) : ClaimLoop → Prop where
  /-- it is told to stop, or nothing -/
  | told {l' : ClaimLoop} : l.Told l' → LoopTurn e i l e' l'
  /-- it goes on -/
  | goes {l' : ClaimLoop} {queue : List Message} {env? : Option Envelope} {news : List Event} :
      l.Step i e.now e.handlings.size (e.broker.channel l.channel).queue l' queue env? news →
      e.Goes i l l' queue env? news e' → LoopTurn e i l e' l'
  /-- one of its handlings completes a message -/
  | completes {n : Nat} {o : Offset} {l' : ClaimLoop} {mark : Option Offset} :
      l.Completes n o l' mark → LoopTurn e i l e' l'

/-- **Claim loops.**  What a step comes to for a claim loop. -/
theorem loopTurn_of_step {i : Nat} {l : ClaimLoop} (hs : e.Sound) (h : Step w e e')
    (hl : e.loops[i]? = some l) : ∃ l', e'.loops[i]? = some l' ∧ e.LoopTurn i l e' l' := by
  have hout : e.Outside e' → ∃ l', e'.loops[i]? = some l' ∧ e.LoopTurn i l e' l' := by
    intro ho
    obtain ⟨f, hloops, htold⟩ := ho.told
    exact ⟨f l, by rw [hloops, Array.getElem?_map, hl, Option.map_some], .told (htold l)⟩
  have hset : ∀ {k : Nat} {l₁ l₂ : ClaimLoop}, e.loops[k]? = some l₁ →
      e'.loops = e.loops.setIfInBounds k l₂ → (k = i → e.LoopTurn i l₁ e' l₂) →
      ∃ l', e'.loops[i]? = some l' ∧ e.LoopTurn i l e' l' := by
    intro k l₁ l₂ hl₁ hloops hturn
    rw [getElem?_set_loop hl₁ hloops]
    split
    · rename_i hi
      subst hi
      obtain rfl := Option.some.inj (hl.symm.trans hl₁)
      exact ⟨l₂, rfl, hturn rfl⟩
    · exact ⟨l, hl, .told (.refl l)⟩
  cases h with
  | @task _ t ht =>
    cases t with
    | member m =>
      obtain ⟨member, b, loops, phase, news, hm, hstep, hmv⟩ := stepMember?_inv ht
      by_cases hsize : loops.size = e.loops.size
      · exact hout (hstep.outside hmv hm hsize)
      · cases hstep with
        | claims _ hn =>
          obtain ⟨hlt, -⟩ := Array.getElem?_eq_some_iff.1 hl
          refine ⟨l, ?_, .told (.refl l)⟩
          rw [getElem?_of_claims hmv, if_neg (Nat.ne_of_lt hlt), hl]
        | ends => simp [modifyLoopsOf] at hsize
        | stops => simp [modifyLoopsOf] at hsize
        | _ => exact absurd rfl hsize
    | loop k =>
      obtain ⟨l₁, l₂, queue, env?, news, hl₁, hstep, hgoes⟩ :=
        stepLoop?_inv ht (hs.fits k) fun l hl => hs.channel_lt hl
      refine hset hl₁ hgoes.loops_eq ?_
      rintro rfl
      exact .goes hstep hgoes
    | handling n =>
      obtain ⟨t, l₁, phase?, startedAt, news, -, hl₁, -, hcomes⟩ := stepHandling?_inv ht (hs.loop_lt n)
      cases hcomes with
      | waits hh => exact hset hl₁ hh.loops_eq fun _ => .told (.refl l₁)
      | completes hc hh => exact hset hl₁ hh.loops_eq fun _ => .completes hc
  | act a =>
    by_cases ha : ∃ n, a = .release n
    · obtain ⟨n, rfl⟩ := ha
      obtain ⟨handlings, hrelease, -⟩ := e.releaseHandling_inv n
      refine ⟨l, ?_, .told (.refl l)⟩
      rw [act, hrelease]
      exact hl
    · exact hout (outside_act a fun n hn => ha ⟨n, hn⟩)
  | tick t _ => exact ⟨l, hl, .told (.refl l)⟩

/-- A claim loop that was not there before is that of a claim just handed out. -/
theorem exists_claim_of_step {i : Nat} {l : ClaimLoop} (hs : e.Sound) (h : Step w e e')
    (hnone : e.loops[i]? = none) (hl : e'.loops[i]? = some l) :
    ∃ m member s claim b, e.members[m]? = some member ∧ member.phase = .consuming s ∧
      e.stepMember? m = some e' ∧ e.broker.nextClaim s = (.claim claim, b) ∧
      i = e.loops.size ∧ l = member.loopFor m claim := by
  have hsize : e'.loops.size ≠ e.loops.size := by
    intro heq
    rw [Array.getElem?_eq_none_iff, ← heq] at hnone
    obtain ⟨hlt, -⟩ := Array.getElem?_eq_some_iff.1 hl
    omega
  have hset : ∀ {k : Nat} {l₂ : ClaimLoop}, e'.loops = e.loops.setIfInBounds k l₂ → False :=
    fun hloops => hsize (by rw [hloops, Array.size_setIfInBounds])
  have hout : e.Outside e' → False := by
    intro ho
    obtain ⟨f, hloops, -⟩ := ho.told
    exact hsize (by rw [hloops, Array.size_map])
  cases h with
  | @task _ t ht =>
    cases t with
    | member m =>
      obtain ⟨member, b, loops, phase, news, hm, hstep, hmv⟩ := stepMember?_inv ht
      by_cases heq : loops.size = e.loops.size
      · exact (hout (hstep.outside hmv hm heq)).elim
      · cases hstep with
        | @claims s claim _ hp hn =>
          rw [getElem?_of_claims hmv, hnone] at hl
          split at hl
          · rename_i hi
            exact ⟨m, member, s, claim, b, hm, hp, ht, hn, hi, (Option.some.inj hl).symm⟩
          · cases hl
        | ends => simp [modifyLoopsOf] at heq
        | stops => simp [modifyLoopsOf] at heq
        | _ => exact absurd rfl heq
    | loop k =>
      obtain ⟨l, l', queue, env?, news, -, -, hgoes⟩ :=
        stepLoop?_inv ht (hs.fits k) fun l hl => hs.channel_lt hl
      exact (hset hgoes.loops_eq).elim
    | handling n =>
      obtain ⟨t, l, phase?, startedAt, news, -, -, -, hcomes⟩ := stepHandling?_inv ht (hs.loop_lt n)
      cases hcomes with
      | waits hh => exact (hset hh.loops_eq).elim
      | completes _ hh => exact (hset hh.loops_eq).elim
  | act a =>
    by_cases ha : ∃ n, a = .release n
    · obtain ⟨n, rfl⟩ := ha
      obtain ⟨handlings, hrelease, -⟩ := e.releaseHandling_inv n
      rw [act, hrelease] at hsize
      exact absurd rfl hsize
    · exact (hout (outside_act a fun n hn => ha ⟨n, hn⟩)).elim
  | tick t _ => exact absurd rfl hsize

end Engine

end ConsumerGroup
