import ConsumerGroup.Proofs.Claim.Accounts
import ConsumerGroup.Proofs.Engine.OnTime
import ConsumerGroup.Proofs.Engine.Turns

/-!
# How claim loops come to their end

* `Engine.Keeps` — what always holds of the end of claim loops: they wait no longer than their member
  is to, and that they have ended is noted.
* `AtRest.cancelled` — when nobody can go on, a loop that was told to take no more messages has ended
  or waits for its handlings.
* `ClosesBy` — a loop that was told so at some time has ended soon after; while nobody is late, it
  has ended when the time for its handlings is over (`OnTime.closesBy`).
-/

namespace ConsumerGroup

open ClaimView

/-! ## What steps leave alone -/

theorem ClaimLoop.Step.drainMillis_eq {i now next : Nat} {l l' : ClaimLoop}
    {queue queue' : List Message} {env? : Option Envelope} {news : List Event}
    (h : l.Step i now next queue l' queue' env? news) : l'.drainMillis = l.drainMillis := by
  cases h <;> rfl

/-- A loop that has ended has noted that. -/
theorem ClaimLoop.Step.noted {i now next : Nat} {l l' : ClaimLoop} {queue queue' : List Message}
    {env? : Option Envelope} {news : List Event} {how : LoopEnd}
    (h : l.Step i now next queue l' queue' env? news) (hp : l'.phase = .ended how) :
    .ended i how ∈ news := by
  cases h with
  | pass ht => exact nomatch ht.receiving.symm.trans hp
  | crash =>
    obtain rfl := LoopPhase.ended.inj hp
    exact List.mem_cons_self
  | finish =>
    obtain rfl := LoopPhase.ended.inj hp
    exact List.mem_cons_self
  | _ => cases hp

/-- A loop that begins to wait for its handlings waits from now on. -/
theorem ClaimLoop.Step.deadline_eq {i now next : Nat} {l l' : ClaimLoop} {queue queue' : List Message}
    {env? : Option Envelope} {news : List Event} {deadline : Nat}
    (h : l.Step i now next queue l' queue' env? news) (hp : l'.phase = .draining deadline) :
    deadline = now + l.drainMillis ∧ (l.phase = .receiving ∨ ∃ env, l.phase = .parked env) := by
  cases h with
  | pass ht => exact nomatch ht.receiving.symm.trans hp
  | drain _ hc =>
    refine ⟨(LoopPhase.draining.inj hp).symm, ?_⟩
    cases hc with
    | receiving hp => exact Or.inl hp
    | parked hp => exact Or.inr ⟨_, hp⟩
  | _ => cases hp

theorem ClaimLoop.Completes.keeps {l l' : ClaimLoop} {n : Nat} {o : Offset} {mark : Option Offset}
    (h : l.Completes n o l' mark) : l'.phase = l.phase ∧ l'.drainMillis = l.drainMillis ∧
      l'.cancelled = l.cancelled ∧ l'.aborted = l.aborted := by
  cases h <;> exact ⟨rfl, rfl, rfl, rfl⟩

theorem ClaimLoop.Told.keeps {l l' : ClaimLoop} (h : l.Told l') :
    l'.phase = l.phase ∧ l'.drainMillis = l.drainMillis := by
  rw [h.eq]
  exact ⟨rfl, rfl⟩

/-- A loop that was told to stop is not told otherwise. -/
theorem ClaimLoop.Step.told {i now next : Nat} {l l' : ClaimLoop} {queue queue' : List Message}
    {env? : Option Envelope} {news : List Event} (h : l.Step i now next queue l' queue' env? news) :
    l'.cancelled = l.cancelled ∧ l'.aborted = l.aborted := by
  cases h <;> exact ⟨rfl, rfl⟩

/-- A loop that is to take no more messages can only wait for its handlings, or end. -/
theorem ClaimLoop.Step.of_cancelled {i now next : Nat} {l l' : ClaimLoop}
    {queue queue' : List Message} {env? : Option Envelope} {news : List Event}
    (h : l.Step i now next queue l' queue' env? news) (hc : l.cancelled = true) :
    l'.isEnded = true ∨ ∃ deadline, l'.phase = .draining deadline := by
  cases h with
  | pass ht => exact nomatch ht.notCancelled.symm.trans hc
  | crash ht => exact nomatch ht.notCancelled.symm.trans hc
  | enter ht => exact nomatch ht.notCancelled.symm.trans hc
  | park ht => exact nomatch ht.notCancelled.symm.trans hc
  | unpark _ hnc => exact nomatch hnc.symm.trans hc
  | drain => exact Or.inr ⟨_, rfl⟩
  | finish => exact Or.inl rfl

namespace Engine

variable {w : World} {e₀ e e' : Engine} {i : Nat} {l l' : ClaimLoop}

theorem LoopTurn.keeps (h : e.LoopTurn i l e' l') : SameClaim l l' ∧ l'.drainMillis = l.drainMillis ∧
    (l.cancelled = true → l'.cancelled = true) ∧ (l.aborted = true → l'.aborted = true) := by
  cases h with
  | told h => exact ⟨h.eq ▸ ⟨rfl, rfl, rfl, rfl, rfl⟩, h.keeps.2, h.cancelled, h.aborted⟩
  | goes h _ => exact ⟨h.sameClaim, h.drainMillis_eq, h.told.1.trans, h.told.2.trans⟩
  | completes h =>
    obtain ⟨-, hd, hc, ha⟩ := h.keeps
    exact ⟨h.sameClaim, hd, hc.trans, ha.trans⟩

/-- A loop stays where it stands, unless it goes on. -/
theorem LoopTurn.phase_eq (h : e.LoopTurn i l e' l') : l'.phase = l.phase ∨
    ∃ queue env? news,
      l.Step i e.now e.handlings.size (e.broker.channel l.channel).queue l' queue env? news ∧
      e'.events = news ++ e.events ∧ e'.now = e.now := by
  cases h with
  | told h => exact Or.inl h.keeps.1
  | goes h hgoes => exact Or.inr ⟨_, _, _, h, events_of_journal_eq hgoes.journal_eq, hgoes.now_eq⟩
  | completes h => exact Or.inl h.keeps.1

/-- A loop that has ended does not come to life again. -/
theorem LoopTurn.ended (h : e.LoopTurn i l e' l') {how : LoopEnd} (hp : l.phase = .ended how) :
    l'.phase = .ended how := by
  rcases h.phase_eq with heq | ⟨queue, env?, news, hstep, -, -⟩
  · exact heq.trans hp
  · have hrun := (taken_of_step hstep).1
    rw [ClaimLoop.isEnded, hp] at hrun
    cases hrun

/-! ## What always holds -/

/-- What always holds of the end of claim loops. -/
structure Keeps (e : Engine) : Prop where
  /-- they wait for their handlings as long as their member is to -/
  drainMillis_eq : ∀ (i : Nat) (l : ClaimLoop), e.loops[i]? = some l →
    ∃ member, e.members[l.member]? = some member ∧ l.drainMillis = member.config.drainMillis
  /-- and not longer -/
  deadline_le : ∀ (i : Nat) (l : ClaimLoop) (deadline : Nat), e.loops[i]? = some l →
    l.phase = .draining deadline → deadline ≤ e.now + l.drainMillis
  /-- that they have ended is noted -/
  noted : ∀ (i : Nat) (l : ClaimLoop) (how : LoopEnd), e.loops[i]? = some l →
    l.phase = .ended how → .ended i how ∈ e.events

/-- Time does not go back. -/
theorem now_le_of_step (h : Step w e e') : e.now ≤ e'.now := by
  cases h with
  | task t ht => exact Nat.le_of_eq (now_of_step? ht).symm
  | act a => exact Nat.le_of_eq (now_act e a).symm
  | tick t ht => exact ht

theorem Keeps.step (h : e.Keeps) (hs : e.Sound) (hstep : Step w e e') : e'.Keeps := by
  obtain ⟨news, hevents⟩ := events_of_step hs hstep
  have hnow := now_le_of_step hstep
  -- a claim loop of the new engine is one of the old, or new
  have hback : ∀ {i : Nat} {l' : ClaimLoop}, e'.loops[i]? = some l' →
      (∃ l, e.loops[i]? = some l ∧ e.LoopTurn i l e' l') ∨
      ∃ (m : Nat) (member : Member) (claim : Claim), e.members[m]? = some member ∧
        l' = member.loopFor m claim := by
    intro i l' hl'
    rcases hl : e.loops[i]? with _ | l
    · obtain ⟨m, member, _, claim, _, hm, -, -, -, -, heq⟩ := exists_claim_of_step hs hstep hl hl'
      exact Or.inr ⟨m, member, claim, hm, heq⟩
    · obtain ⟨l'', hl'', hturn⟩ := loopTurn_of_step hs hstep hl
      obtain rfl := Option.some.inj (hl'.symm.trans hl'')
      exact Or.inl ⟨l, rfl, hturn⟩
  refine ⟨?_, ?_, ?_⟩
  · have hmember : ∀ {m : Nat} {member : Member}, e.members[m]? = some member →
        ∃ member', e'.members[m]? = some member' ∧ member.Like member' := by
      intro m member hm
      obtain ⟨member', hm', hturn⟩ := memberTurn_of_step hs hstep hm
      exact ⟨member', hm', hturn.like.1⟩
    intro i l' hl'
    rcases hback hl' with ⟨l, hl, hturn⟩ | ⟨m, member, claim, hm, rfl⟩
    · obtain ⟨hsame, hd, -⟩ := hturn.keeps
      obtain ⟨member, hm, heq⟩ := h.drainMillis_eq i l hl
      obtain ⟨member', hm', hlike⟩ := hmember hm
      exact ⟨member', hsame.member_eq ▸ hm', by rw [hd, heq, hlike.config_eq]⟩
    · obtain ⟨member', hm', hlike⟩ := hmember hm
      exact ⟨member', hm', by rw [hlike.config_eq]; rfl⟩
  · intro i l' deadline hl' hp
    rcases hback hl' with ⟨l, hl, hturn⟩ | ⟨m, member, claim, hm, rfl⟩
    · rw [hturn.keeps.2.1]
      rcases hturn.phase_eq with heq | ⟨queue, env?, news, hgoes, -, hnow'⟩
      · have hle := h.deadline_le i l deadline hl (heq ▸ hp)
        omega
      · exact Nat.le_of_eq (by rw [(hgoes.deadline_eq hp).1, hnow'])
    · cases hp
  · intro i l' how hl' hp
    rcases hback hl' with ⟨l, hl, hturn⟩ | ⟨m, member, claim, hm, rfl⟩
    · rcases hturn.phase_eq with heq | ⟨queue, env?, news', hgoes, hevents', -⟩
      · rw [hevents]
        exact List.mem_append_right _ (h.noted i l how hl (heq ▸ hp))
      · rw [hevents']
        exact List.mem_append_left _ (hgoes.noted hp)
    · cases hp

/-- When nobody can go on, a loop that is to take no more messages has ended, or it waits for its
handlings and its time is not over. -/
theorem AtRest.cancelled (h : e.AtRest w) (hl : e.loops[i]? = some l) (hc : l.cancelled = true) :
    l.isEnded = true ∨ ∃ deadline, l.phase = .draining deadline ∧ e.now < deadline := by
  have hnone : e.stepLoop? w i = none := h (.loop i)
  simp only [stepLoop?, hl] at hnone
  split at hnone
  · exact Or.inl ‹_›
  · split at hnone
    · cases hnone
    · rw [goLoop?] at hnone
      split at hnone
      · rw [if_pos hc] at hnone
        cases hnone
      · rw [if_pos hc] at hnone
        cases hnone
      · rename_i deadline hp
        split at hnone
        · cases hnone
        · cases hnone
        · split at hnone
          · cases hnone
          · exact Or.inr ⟨deadline, hp, by omega⟩
      · rename_i how hp
        exact Or.inl (by rw [ClaimLoop.isEnded, hp])

/-- The time for which a loop waits is one for which somebody waits. -/
theorem mem_deadlines {deadline : Nat} (hl : e.loops[i]? = some l)
    (hp : l.phase = .draining deadline) : deadline ∈ e.deadlines := by
  refine List.mem_append_left _ (List.mem_append_right _ (List.mem_filterMap.2 ⟨l, ?_, ?_⟩))
  · exact Array.mem_toList_iff.2 (Array.mem_of_getElem? hl)
  · rw [hp]
    rfl

/-- The loop was told at time `start` to take no more messages: unless the time is still the same it
has ended or waits for its handlings, and it does not wait too long. -/
structure ClosesBy (start : Nat) (e : Engine) (l : ClaimLoop) : Prop where
  /-- it was told so -/
  cancelled : l.cancelled = true
  /-- it does not wait too long -/
  deadline_le : ∀ deadline, l.phase = .draining deadline → deadline ≤ start + l.drainMillis
  /-- no time has passed, or it takes no more messages -/
  closed : e.now = start ∨ l.isEnded = true ∨ ∃ deadline, l.phase = .draining deadline
  /-- it has ended when the time is over -/
  ended : start + l.drainMillis < e.now → l.isEnded = true

theorem ClosesBy.turn {start : Nat} (h : ClosesBy start e l) (hturn : e.LoopTurn i l e' l')
    (hnow : e'.now = e.now) : ClosesBy start e' l' := by
  obtain ⟨-, hd, hc, -⟩ := hturn.keeps
  rcases hturn.phase_eq with heq | ⟨queue, env?, news, hstep, -, -⟩
  · have hended : l'.isEnded = l.isEnded := by rw [ClaimLoop.isEnded, heq, ClaimLoop.isEnded]
    refine ⟨hc h.cancelled, ?_, ?_, ?_⟩
    · rw [heq, hd]
      exact h.deadline_le
    · rw [hnow, hended, heq]
      exact h.closed
    · rw [hnow, hended, hd]
      exact h.ended
  · have hphase := hstep.of_cancelled h.cancelled
    have hstart : ∀ deadline, l'.phase = .draining deadline → e.now = start := by
      intro deadline hp
      obtain ⟨-, hbefore⟩ := hstep.deadline_eq hp
      refine h.closed.resolve_right ?_
      rintro (hended | ⟨_, hp'⟩)
      · rcases hbefore with hp' | ⟨env, hp'⟩ <;> rw [ClaimLoop.isEnded, hp'] at hended <;> cases hended
      · rcases hbefore with hp'' | ⟨env, hp''⟩ <;> rw [hp'] at hp'' <;> cases hp''
    refine ⟨hc h.cancelled, ?_, Or.inr hphase, ?_⟩
    · intro deadline hp
      exact Nat.le_of_eq (by rw [(hstep.deadline_eq hp).1, hstart deadline hp, hd])
    · intro hlt
      rcases hphase with hended | ⟨deadline, hp⟩
      · exact hended
      · rw [hnow, hstart deadline hp] at hlt
        omega

end Engine

end ConsumerGroup
