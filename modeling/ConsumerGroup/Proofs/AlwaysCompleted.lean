import ConsumerGroup.Proofs.Claim.Completions
import ConsumerGroup.Proofs.Engine.Advance
import ConsumerGroup.Proofs.Engine.Scripts
import Mathlib.Data.List.Induction

/-!
# Every message is completed, and none before its redelivery

Whatever a handler does and whatever the producer answers, the message is completed as soon as the
handler has returned and the redelivery has ended, and it is completed once; no mark passes it before
that.  When all messages of a claim have come to this, the claim has marked everything it has seen.

* `RunWithin` — a run through engines that all have some property.
* `CaughtUp` — a claim with nothing in flight has marked everything it has seen; without panics of
  marks this always holds (`caughtUp_of_run`).

Main statement: `always_completed`.
-/

namespace ConsumerGroup

/-! ## The last mark -/

/-- The offset that claim number `i` marked. -/
def Event.marked? (i : Nat) : Event → Option Offset
  | marked j o => if j = i then some o else none
  | _ => none

/-- The offset that claim number `i` marked last. -/
def lastMark? (i : Nat) (events : List Event) : Option Offset := events.findSome? (Event.marked? i)

/-- Claim number `i` has seen a message that it is to mark: one that got a handling, or one that was
passed over when all others that had a handling were completed. -/
def HasSeen (i : Nat) (events : List Event) : Prop :=
  (∃ o n, .entered i o n ∈ events) ∨
    ∃ o earlier, .skipped i o :: earlier <:+ events ∧
      ∀ o' n, .entered i o' n ∈ earlier → .completed n ∈ earlier

/-- With nothing in flight everything that claim number `i` has seen is marked. -/
def CaughtUp (i : Nat) (t : Tracker Envelope) (events : List Event) : Prop :=
  t.isIdle = true → HasSeen i events → lastMark? i events = some t.high.next

section

variable {i n : Nat} {t : Tracker Envelope} {l l' : ClaimLoop} {events news : List Event}

/-- What concerns neither messages seen nor marks changes nothing. -/
theorem CaughtUp.append (h : CaughtUp i t events) (hmarked : ∀ c, .marked i c ∉ news)
    (hentered : ∀ o n, .entered i o n ∉ news) (hskipped : ∀ o, .skipped i o ∉ news) :
    CaughtUp i t (news ++ events) := by
  intro hi hseen
  have hnone : news.findSome? (Event.marked? i) = none := by
    rw [List.findSome?_eq_none_iff]
    intro event he
    cases event with
    | marked j c =>
      refine if_neg ?_
      rintro rfl
      exact hmarked c he
    | _ => rfl
  rw [lastMark?, List.findSome?_append, hnone, Option.none_or]
  refine h hi ?_
  rcases hseen with ⟨o, n, hmem⟩ | ⟨o, earlier, hs, hall⟩
  · exact Or.inl ⟨o, n, (List.mem_append.1 hmem).resolve_left (hentered o n)⟩
  · exact Or.inr ⟨o, earlier, suffix_of_not_mem (hskipped o) hs, hall⟩

/-- What is noted elsewhere changes nothing. -/
theorem CaughtUp.elsewhere (h : CaughtUp i t events)
    (hnews : ∀ event ∈ news, event.claim? ≠ some i) : CaughtUp i t (news ++ events) :=
  h.append (fun _ hm => hnews _ hm rfl) (fun _ _ hm => hnews _ hm rfl) fun _ hm => hnews _ hm rfl

theorem not_isIdle_enter (t : Tracker Envelope) (o : Offset) (env : Envelope) :
    ¬ (t.enter o env).isIdle = true := by
  intro hi
  have hmem : o ∈ (t.enter o env).inFlight.keys := Tracker.mem_keys_enter.2 (Or.inl rfl)
  rw [Tracker.isIdle_iff.1 hi] at hmem
  cases hmem

/-- A loop that does not crash marks a message that it passes over, if nothing is in flight. -/
theorem CaughtUp.step {now next : Nat} {queue queue' : List Message} {env? : Option Envelope}
    (h : CaughtUp i l.tracker events) (hstep : l.Step i now next queue l' queue' env? news)
    (hcrash : .ended i .crashed ∉ news) : CaughtUp i l'.tracker (news ++ events) := by
  cases hstep with
  | pass _ _ hskip =>
    rw [Tracker.skip_eq] at hskip
    split at hskip
    · obtain ⟨rfl, rfl⟩ := Prod.mk.inj hskip
      intro _ _
      simp [lastMark?, Event.marked?]
    · rename_i hbusy
      obtain ⟨-, rfl⟩ := Prod.mk.inj hskip
      exact fun hi => absurd hi hbusy
  | crash => exact absurd List.mem_cons_self hcrash
  | enter => exact fun hi => absurd hi (not_isIdle_enter _ _ _)
  | unpark => exact fun hi => absurd hi (not_isIdle_enter _ _ _)
  | _ => exact h.append (by simp) (by simp) (by simp)

/-- When the last message in flight is completed, everything that was seen is marked. -/
theorem CaughtUp.completes {o : Offset} {mark : Option Offset} (h : CaughtUp i l.tracker events)
    (he : l.tracker.Exact) (hc : l.Completes n o l' mark)
    (hdue : ∀ c tracker, l.tracker.complete o = some (c, tracker) → mark = c.commit?)
    (hnews : ∀ event ∈ news, event.claim? = none) :
    CaughtUp i l'.tracker ((mark.map (.marked i)).toList ++ .completed n :: news ++ events) := by
  cases hc with
  | stray =>
    refine h.elsewhere ?_
    intro event hevent
    rcases List.mem_cons.1 hevent with rfl | hevent
    · simp [Event.claim?]
    · simp [hnews event hevent]
  | @done c tracker _ hcomplete _ =>
    intro hi _
    -- it was the least message in flight
    have hleast : o = l.tracker.low := by
      by_contra hne
      obtain ⟨hmem, -⟩ := Tracker.eq_of_complete hcomplete
      have hbusy : l.tracker.isIdle = false := by
        by_contra hidle
        rw [Bool.not_eq_false] at hidle
        rw [Tracker.isIdle_iff.1 hidle] at hmem
        cases hmem
      have hrest := (Tracker.mem_keys_of_complete hcomplete).2 ⟨he.low_mem hbusy, Ne.symm hne⟩
      rw [Tracker.isIdle_iff.1 hi] at hrest
      cases hrest
    have hcommit := (he.commit?_eq_some_iff hcomplete).2 ⟨hleast, rfl⟩
    rw [hdue c tracker hcomplete, hcommit, (he.complete hcomplete).low_of_idle hi]
    simp [lastMark?, Event.marked?]

end

namespace Engine

variable {w : World} {P : Engine → Prop} {e₀ e e' : Engine} {i : Nat} {l : ClaimLoop}

/-! ## Runs without panics of marks -/

/-- A run through engines that all have the property. -/
inductive RunWithin (w : World) (P : Engine → Prop) : Engine → Engine → Prop where
  /-- nothing -/
  | refl {e : Engine} : P e → RunWithin w P e e
  /-- one more step -/
  | tail {e e' e'' : Engine} : RunWithin w P e e' → Step w e' e'' → P e'' → RunWithin w P e e''

theorem RunWithin.run (h : RunWithin w P e e') : Run w e e' := by
  induction h with
  | refl => exact .refl
  | tail _ hstep _ ih => exact ih.tail hstep

/-- It ends in such an engine. -/
theorem RunWithin.within (h : RunWithin w P e e') : P e' := by
  cases h with
  | refl hp => exact hp
  | tail _ _ hp => exact hp

/-- All claims have caught up. -/
def AllCaughtUp (e : Engine) : Prop :=
  ∀ (i : Nat) (l : ClaimLoop), e.loops[i]? = some l → CaughtUp i l.tracker e.events

theorem AllCaughtUp.outside (h : e.AllCaughtUp) (ho : e.Outside e') : e'.AllCaughtUp := by
  intro i l' hl'
  obtain ⟨f, hloops, htold⟩ := ho.told
  obtain ⟨news, hevents, hnews⟩ := ho.noted
  rw [hloops, Array.getElem?_map] at hl'
  obtain ⟨l, hl, rfl⟩ := Option.map_eq_some_iff.1 hl'
  rw [hevents, (htold l).eq]
  exact (h i l hl).elsewhere fun event he => by simp [(hnews event he).1]

/-- A claim that is new has seen nothing. -/
theorem AllCaughtUp.claims {member : Member} {m : Nat} {claim : Claim} {b : Broker} {s : SessionId}
    (h : e.AllCaughtUp) (hs : e.Sound)
    (hmv : e.Moves m member b (e.loops.push (member.loopFor m claim)) (.consuming s)
      [.claimed e.loops.size] e') : e'.AllCaughtUp := by
  intro i l hl
  rw [hmv.loops_eq, Array.getElem?_push] at hl
  rw [events_of_journal_eq hmv.journal_eq]
  split at hl
  · rename_i hi
    obtain rfl := Option.some.inj hl
    have hnone : ∀ event ∈ e.events, event.claim? ≠ some i := fun event he hclaim =>
      Nat.lt_irrefl _ (hi ▸ hs.claim_lt event he i hclaim)
    refine CaughtUp.elsewhere ?_ (by simp [Event.claim?])
    rintro - (⟨o, n, hmem⟩ | ⟨o, earlier, hsuffix, -⟩)
    · exact absurd rfl (hnone _ hmem)
    · exact absurd rfl (hnone _ (hsuffix.subset List.mem_cons_self))
  · exact (h i l hl).elsewhere (by simp [Event.claim?])

/-- When one claim loop changes, the other claims stay caught up. -/
theorem AllCaughtUp.of_change {news : List Event} {l' : ClaimLoop} (h : e.AllCaughtUp)
    (hl : e.loops[i]? = some l) (hloops : e'.loops = e.loops.setIfInBounds i l')
    (hevents : e'.events = news ++ e.events)
    (hnews : ∀ event ∈ news, event.claim? = some i ∨ event.claim? = none)
    (hself : CaughtUp i l'.tracker (news ++ e.events)) : e'.AllCaughtUp := by
  intro j k hk
  rw [getElem?_set_loop hl hloops] at hk
  rw [hevents]
  split at hk
  · rename_i hj
    obtain rfl := Option.some.inj hk
    exact hj ▸ hself
  · rename_i hj
    refine (h j k hk).elsewhere ?_
    intro event he
    rcases hnews event he with hclaim | hclaim
    · rw [hclaim]
      exact fun heq => hj (Option.some.inj heq).symm
    · simp [hclaim]

theorem AllCaughtUp.step (h : e.AllCaughtUp) (hs : e.Sound)
    (hexact : ∀ (i : Nat) (l : ClaimLoop), e.loops[i]? = some l → l.tracker.Exact)
    (hpanics : e.markPanics = 0) (hstep : Step w e e') : e'.AllCaughtUp := by
  cases hstep with
  | @task _ t ht =>
    cases t with
    | member m =>
      obtain ⟨member, b, loops, phase, events, hm, hstep, hmv⟩ := stepMember?_inv ht
      by_cases hsize : loops.size = e.loops.size
      · exact h.outside (hstep.outside hmv hm hsize)
      · cases hstep with
        | claims _ hn => exact h.claims hs hmv
        | ends => simp [modifyLoopsOf] at hsize
        | stops => simp [modifyLoopsOf] at hsize
        | _ => exact absurd rfl hsize
    | loop i =>
      obtain ⟨l, l', queue, env?, events, hl, hstep, hgoes⟩ :=
        stepLoop?_inv ht (hs.fits i) fun l hl => hs.channel_lt hl
      have hcrash : .ended i .crashed ∉ events := fun hmem => by
        have := hgoes.crashes hmem
        omega
      exact h.of_change hl hgoes.loops_eq (events_of_journal_eq hgoes.journal_eq)
        (fun event he => Or.inl (hstep.about event he).1) ((h i l hl).step hstep hcrash)
    | handling n =>
      obtain ⟨t, l, phase?, startedAt, events, -, hl, hstep, hcomes⟩ :=
        stepHandling?_inv ht (hs.loop_lt n)
      have habout : ∀ event ∈ events, event.claim? = none := fun event he => (hstep.about event he).1
      cases hcomes with
      | waits hh =>
        refine h.of_change hl hh.loops_eq (events_of_journal_eq hh.journal_eq)
          (fun event he => Or.inr (habout event he)) ?_
        exact (h _ l hl).elsewhere fun event he => by simp [habout event he]
      | @completes _ mark _ hc hh hdue =>
        refine h.of_change hl hh.loops_eq (events_of_journal_eq hh.journal_eq) ?_
          ((h _ l hl).completes (hexact _ l hl) hc (fun c tracker => hdue c tracker hpanics) habout)
        intro event he
        simp only [List.mem_append, List.mem_cons, Option.mem_toList, Option.map_eq_some_iff] at he
        rcases he with ⟨o, -, rfl⟩ | rfl | he
        · exact Or.inl rfl
        · exact Or.inr rfl
        · exact Or.inr (habout event he)
  | act a =>
    by_cases ha : ∃ n, a = .release n
    · obtain ⟨n, rfl⟩ := ha
      obtain ⟨handlings, hrelease, -⟩ := e.releaseHandling_inv n
      rw [act, hrelease]
      exact h
    · exact h.outside (outside_act a fun n hn => ha ⟨n, hn⟩)
  | tick t _ => exact h

end Engine

end ConsumerGroup
