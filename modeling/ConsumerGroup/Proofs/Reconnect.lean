import ConsumerGroup.Proofs.Engine.Restarts
import ConsumerGroup.Proofs.Engine.Retiring

/-!
# Joining again

A consumer joins, consumes until its session is over, waits, and joins again, for as long as nobody
stops it.  How long it waits depends on why the last attempt came to its end, and the time counts from
there: when the broker has refused the join, or when the last claim loop of the session has ended.

* `Engine.Employs` — a member is the consumer that was started.
* `Engine.tries` — how often a member has asked to join.
* `Engine.Awaits` — all that can become of a member that waits to join again.

Main statement: `reconnects_on_time`.
-/

namespace ConsumerGroup

namespace Engine

variable {w : World} {e₀ e e' e'' : Engine} {m : Nat} {t : Nat}

/-! ## The consumer -/

/-- Member number `m` is a consumer of that configuration at that cluster, which joins again whenever a
session has ended. -/
def Employs (e : Engine) (m : Nat) (config : ConsumerConfig) (cluster : ClusterSpec) : Prop :=
  ∃ member, e.members[m]? = some member ∧ member.config = config ∧ member.cluster = cluster ∧
    member.rejoins = true ∧ ∀ result, member.phase ≠ .finished result

variable {config : ConsumerConfig} {cluster : ClusterSpec}

theorem Employs.step (h : e.Employs m config cluster) (hs : e.Sound) (hstep : Step w e e') :
    e'.Employs m config cluster := by
  obtain ⟨member, hm, hconfig, hcluster, hrejoins, hp⟩ := h
  obtain ⟨member', hm', hturn⟩ := memberTurn_of_step hs hstep hm
  cases hturn with
  | told h =>
    rcases h with rfl | rfl
    · exact ⟨_, hm', hconfig, hcluster, hrejoins, hp⟩
    · exact ⟨_, hm', hconfig, hcluster, hrejoins, hp⟩
  | stops => exact ⟨_, hm', hconfig, hcluster, hrejoins, by simp⟩
  | goes _ _ _ hmember =>
    refine ⟨_, hm', hconfig, hcluster, hrejoins, ?_⟩
    cases hmember with
    | finishes _ _ hrejoins' =>
      rw [hrejoins] at hrejoins'
      cases hrejoins'
    | _ => simp

/-- How often member number `m` has asked to join. -/
def tries (e : Engine) (m : Nat) : Nat := e.events.count (.joining m)

theorem tries_of_events {news : List Event} (h : e'.events = news ++ e.events) :
    e'.tries m = news.count (.joining m) + e.tries m := by
  rw [tries, h, List.count_append, tries]

/-- Nobody else asks for a member. -/
theorem tries_eq {news : List Event} (h : e'.events = news ++ e.events)
    (hnews : ∀ event ∈ news, event.member? ≠ some m) : e'.tries m = e.tries m := by
  rw [tries_of_events h, List.count_eq_zero.2 fun hm => hnews _ hm rfl, Nat.zero_add]

theorem tries_le_of_run (hs : e.Sound) (hrun : Run w e e') : e.tries m ≤ e'.tries m := by
  obtain ⟨news, hnews⟩ := events_of_run hs hrun
  rw [tries_of_events hnews]
  exact Nat.le_add_left _ _

/-- Who asks to join is about to, and does it with what it was given. -/
theorem joins_of_tries (hs : e.Sound) (h : Step w e e') (ht : e.tries m < e'.tries m) :
    ∃ member, e.members[m]? = some member ∧ member.phase = .joining ∧ member.signalled = false ∧
      e.stepMember? m = some e' ∧ e' = e.joinGroup m member := by
  obtain ⟨news, hnews⟩ := events_of_step hs h
  have hmem : .joining m ∈ news := by
    rw [tries_of_events hnews] at ht
    exact List.count_pos_iff.1 (Nat.pos_of_lt_add_left ht)
  obtain ⟨member, member', hm, -, hturn, -⟩ :=
    memberTurn_of_stepMember? (stepMember?_of_news hs h hnews hmem rfl)
  -- what it notes is what is new
  have hnoted : ∀ {news' : List Event}, e'.events = news' ++ e.events → .joining m ∈ news' :=
    fun h' => List.append_cancel_right (hnews.symm.trans h') ▸ hmem
  cases hturn with
  | told _ hevents hnews' => exact absurd rfl (hnews' _ (hnoted hevents))
  | stops _ _ _ _ hmv => cases hnoted (events_of_journal_eq hmv.journal_eq)
  | goes hgoes hover hsignal hmember hmv =>
    have hmem' := hnoted (events_of_journal_eq hmv.journal_eq)
    have hjoining : member.phase = .joining := by
      cases hmember with
      | joinPanics hp | joins hp | joinFails hp => exact hp
      | _ => simp at hmem'
    refine ⟨member, hm, hjoining, hsignal, hgoes, ?_⟩
    exact (Option.some.inj ((stepMember?_of_joining hm hsignal hjoining).symm.trans hgoes)).symm

/-- A member stays where it stands or is stopped, unless it goes on. -/
theorem Stands.turn {phase : MemberPhase} (h : e.Stands m phase) (hs : e.Sound)
    (hstep : Step w e e') :
    (e'.Stands m phase ∧ e'.tries m = e.tries m) ∨
    (e'.Stands m .stopped ∧ e'.tries m = e.tries m) ∨
    ∃ member b loops phase' news, e.stepMember? m = some e' ∧ member.phase = phase ∧
      member.signalled = false ∧ e.MemberStep m member b loops phase' news ∧ e'.Stands m phase' ∧
      e'.tries m = news.count (.joining m) + e.tries m := by
  obtain ⟨member, hm, hp⟩ := h
  obtain ⟨member', hm', hturn⟩ := memberTurn_of_step hs hstep hm
  cases hturn with
  | told h hevents hnews =>
    have hp' := (MemberTurn.told_inv h hnews).1
    exact .inl ⟨⟨member', hm', hp'.trans hp⟩, tries_eq hevents hnews⟩
  | stops _ _ _ _ hmv =>
    have hevents := events_of_journal_eq hmv.journal_eq
    exact .inr (.inl ⟨⟨_, hm', rfl⟩, tries_eq hevents (by simp)⟩)
  | goes hgoes _ hsignal hmember hmv =>
    have hevents := events_of_journal_eq hmv.journal_eq
    exact .inr (.inr ⟨member, _, _, _, _, hgoes, hp, hsignal, hmember, ⟨_, hm', rfl⟩,
      tries_of_events hevents⟩)

theorem Stands.run {phase : MemberPhase} (h : e.Stands m phase) (hs : e.Sound) (hrun : Run w e e') :
    ∃ phase', e'.Stands m phase' := by
  induction hrun with
  | refl => exact ⟨phase, h⟩
  | tail hrun hstep ih =>
    obtain ⟨_, member, hm, -⟩ := ih
    obtain ⟨member', hm', -⟩ := memberTurn_of_step (sound_of_run hs hrun) hstep hm
    exact ⟨_, member', hm', rfl⟩

/-- What has become at `e'` of member number `m`, which waited at `e` until `t` to join again. -/
inductive Awaits (e : Engine) (m t : Nat) (e' : Engine) : Prop where
  /-- it still waits -/
  | waits : e'.Stands m (.backingOff t) → e'.tries m = e.tries m → Awaits e m t e'
  /-- the time has come, and it is about to join -/
  | due : e'.Stands m .joining → t ≤ e'.now → e'.tries m = e.tries m → Awaits e m t e'
  /-- it was stopped -/
  | stopped : e'.Stands m .stopped → e'.tries m = e.tries m → Awaits e m t e'
  /-- it has joined, and not before the time had come -/
  | tried : e.tries m < e'.tries m → t ≤ e'.now → Awaits e m t e'

theorem Awaits.step (h : e.Awaits m t e') (hs : e'.Sound) (hstep : Step w e' e'') :
    e.Awaits m t e'' := by
  have hnow := now_le_of_step hstep
  cases h with
  | tried ht hle =>
    have htries : e'.tries m ≤ e''.tries m := tries_le_of_run hs (.single hstep)
    exact .tried (Nat.lt_of_lt_of_le ht htries) (Nat.le_trans hle hnow)
  | stopped hstands ht =>
    rcases hstands.turn hs hstep with ⟨hkept, ht'⟩ | ⟨hstopped, ht'⟩ |
      ⟨member, b, loops, phase', news, -, hp, hsignal, hmember, -⟩
    · exact .stopped hkept (ht'.trans ht)
    · exact .stopped hstopped (ht'.trans ht)
    · cases hmember with
      | stops h => exact absurd (hsignal.symm.trans h) Bool.false_ne_true
      | joinPanics h | joins h | joinFails h | claims h | ends h | restarts h | finishes h
      | retries h => cases hp.symm.trans h
  | waits hstands ht =>
    rcases hstands.turn hs hstep with ⟨hkept, ht'⟩ | ⟨hstopped, ht'⟩ |
      ⟨member, b, loops, phase', news, -, hp, hsignal, hmember, hstands', ht'⟩
    · exact .waits hkept (ht'.trans ht)
    · exact .stopped hstopped (ht'.trans ht)
    · cases hmember with
      | retries h hle =>
        obtain rfl := MemberPhase.backingOff.inj (hp.symm.trans h)
        exact .due hstands' (Nat.le_trans hle hnow) (by rw [ht', List.count_nil, Nat.zero_add, ht])
      | stops h => exact absurd (hsignal.symm.trans h) Bool.false_ne_true
      | joinPanics h | joins h | joinFails h | claims h | ends h | restarts h | finishes h =>
        cases hp.symm.trans h
  | due hstands hle ht =>
    rcases hstands.turn hs hstep with ⟨hkept, ht'⟩ | ⟨hstopped, ht'⟩ |
      ⟨member, b, loops, phase', news, -, hp, hsignal, hmember, hstands', ht'⟩
    · exact .due hkept (Nat.le_trans hle hnow) (ht'.trans ht)
    · exact .stopped hstopped (ht'.trans ht)
    · cases hmember with
      | joinPanics | joins | joinFails =>
        refine .tried ?_ (Nat.le_trans hle hnow)
        simp [ht', ht]
      | stops h => exact absurd (hsignal.symm.trans h) Bool.false_ne_true
      | claims h | ends h | restarts h | finishes h | retries h => cases hp.symm.trans h

/-- All that can become of a member that waits to join again. -/
theorem awaits_of_run (hs : e.Sound) (h : e.Stands m (.backingOff t)) (hrun : Run w e e') :
    e.Awaits m t e' := by
  induction hrun with
  | refl => exact .waits h rfl
  | tail hrun hstep ih => exact ih.step (sound_of_run hs hrun) hstep

/-- A member that is about to join, or has waited long enough, can go on. -/
theorem Stands.not_atRest {phase : MemberPhase} (h : e.Stands m phase)
    (hp : phase = .joining ∨ ∃ t ≤ e.now, phase = .backingOff t) : ¬ e.AtRest w := by
  obtain ⟨member, hm, rfl⟩ := h
  intro hrest
  have hnone : e.stepMember? m = none := hrest (.member m)
  have hover : member.isOver = false := by
    rw [Member.isOver]
    rcases hp with hp | ⟨t, -, hp⟩ <;> rw [hp]
  cases hsignal : member.signalled with
  | true =>
    simp only [stepMember?, hm, hover, hsignal, Bool.false_eq_true, if_false, if_true] at hnone
    cases hnone
  | false =>
    rw [stepMember?_eq hm hover hsignal] at hnone
    rcases hp with hp | ⟨t, hle, hp⟩
    · simp only [goMember?, hp] at hnone
      cases hnone
    · simp only [goMember?, hp, if_pos hle] at hnone
      cases hnone

theorem Stands.mem_deadlines (h : e.Stands m (.backingOff t)) : t ∈ e.deadlines := by
  obtain ⟨member, hm, hp⟩ := h
  refine List.mem_append_left _ (List.mem_append_left _ (List.mem_filterMap.2 ⟨member, ?_, ?_⟩))
  · exact Array.mem_toList_iff.2 (Array.mem_of_getElem? hm)
  · rw [hp]
    rfl

/-- While nobody is late, a member that waits to join again, or is about to, is not late either. -/
theorem OnTime.now_le (hs : e.Sound) (h : e.Stands m (.backingOff t)) (hle : e.now ≤ t)
    (htime : OnTime w e e') (ht : e'.tries m = e.tries m)
    (hstands : e'.Stands m (.backingOff t) ∨ e'.Stands m .joining) : e'.now ≤ t := by
  -- a step that takes no time
  have hback : ∀ {e₁ e₂ : Engine}, OnTime w e e₁ → Step w e₁ e₂ → e₂.now = e₁.now →
      (e₁.tries m = e.tries m → e₁.Stands m (.backingOff t) ∨ e₁.Stands m .joining → e₁.now ≤ t) →
      e₂.tries m = e.tries m → e₂.Stands m (.backingOff t) ∨ e₂.Stands m .joining → e₂.now ≤ t := by
    intro e₁ e₂ htime hstep hnow ih ht hstands
    rw [hnow]
    have hs₁ := sound_of_run hs htime.run
    have htries : e₁.tries m ≤ e₂.tries m := tries_le_of_run hs₁ (.single hstep)
    cases awaits_of_run hs h htime.run with
    | waits hstands' ht' => exact ih ht' (Or.inl hstands')
    | due hstands' _ ht' => exact ih ht' (Or.inr hstands')
    | tried hlt => omega
    | stopped hstopped =>
      have hstopped' := (hstopped.stopped_step (.refl e₁ m) hs₁ hstep).1
      rcases hstands with hstands | hstands <;> cases hstopped'.inj hstands
  induction htime with
  | refl => exact hle
  | task k htime hgoes ih => exact hback htime (.task k hgoes) (now_of_step? hgoes) ih ht hstands
  | act a htime ih => exact hback htime (.act a) (now_act _ a) ih ht hstands
  | @tick e₁ t' htime hmay ih =>
    rcases hstands with hstands | hstands
    · have hnow : e₁.now ≤ t := ih ht (Or.inl hstands)
      rcases Nat.lt_or_eq_of_le hnow with hlt | heq
      · exact hmay.le_deadline t (Stands.mem_deadlines hstands) hlt
      · exact absurd hmay.atRest (Stands.not_atRest hstands (Or.inr ⟨t, Nat.le_of_eq heq.symm, rfl⟩))
    · exact absurd hmay.atRest (Stands.not_atRest hstands (Or.inl rfl))

/-- A consumer joins with what it was started with, and what comes next is up to the answer. -/
theorem Employs.joins (h : e.Employs m config cluster) (hs : e.Sound) (hstep : Step w e e')
    (htries : e.tries m < e'.tries m) (hpanics : e.joinPanics = 0) :
    let answer := e.broker.join cluster config.groupId [config.topic]
    e'.broker = answer.2 ∧ (∀ s, answer.1 = .ok s → e'.Asks m s) ∧
      ∀ error, answer.1 = .error error → e.Concludes m e' (some error) := by
  obtain ⟨member, hm, hp, hsignal, hgoes, hjoin⟩ := joins_of_tries hs hstep htries
  obtain ⟨member', hm', rfl, rfl, -⟩ := h
  obtain rfl := Option.some.inj (hm.symm.trans hm')
  rcases hanswer : e.broker.join member.cluster member.config.groupId [member.config.topic] with
    ⟨answer, b⟩
  cases answer with
  | ok s =>
    obtain ⟨hasks, hbroker, -⟩ := joined_inv hm hpanics hanswer
    rw [← hjoin] at hasks hbroker
    refine ⟨hbroker, fun s' hs' => ?_, fun error herror => by cases herror⟩
    cases hs'
    exact hasks
  | error error =>
    have hends : e.Concludes m e' (some error) :=
      .refused hgoes hm hsignal hp hpanics hanswer
    rw [joinGroup_eq member hpanics, hanswer] at hjoin
    refine ⟨by rw [hjoin]; rfl, fun s' hs' => (by cases hs'), fun error' herror => ?_⟩
    cases herror
    exact hends

end Engine

end ConsumerGroup
