import ConsumerGroup.Proofs.Claim.View
import Mathlib.Data.List.Nodup

/-!
# What the records of a claim agree on

A token, an entry in the tracker, a handling and the journal all tell of the same message, and they are
kept in different places.  This module says how they agree in every view that can come about:

* `Reachable.numbered` — numbers are in use before anything is noted about them.
* `Reachable.recorded` — the journal tells which messages have a handling, which handlers were called
  and which messages were completed.
* `Reachable.tokens` — the tokens are held by the handlings that are not done.
* `Reachable.comesFrom` — what is handled, passed over or parked has come in on the claim.
-/

namespace ConsumerGroup

/-! ## What a handling does to its own records -/

namespace Handling

variable {w : World} {n now startedAt : Nat} {r : Redeliverer} {phase? : Option HandlingPhase}
  {t : Handling} {news : List Event}

theorem Calls.phase_eq {calls delay : Nat} {record : Record}
    (h : Calls w n now calls delay record phase? news) :
    (∀ phase, phase? = some phase → phase ≠ .fresh ∧ phase ≠ .done) ∧
      news.count (.started n) = 0 ∧ .completed n ∉ news := by
  cases h <;> simp

theorem Runs.phase_eq {env : Envelope} {program : Handler.Program}
    (h : Runs w n now r env program phase? news) :
    (∀ phase, phase? = some phase → phase ≠ .fresh ∧ phase ≠ .done) ∧
      news.count (.started n) = 0 ∧ .completed n ∉ news := by
  cases h with
  | redelivers _ hc =>
    obtain ⟨hphase, hcount, hnot⟩ := hc.phase_eq
    exact ⟨hphase, by simp [List.count_append, hcount], by simp [hnot]⟩
  | _ => simp

/-- A handling calls its handler when it is fresh, and then it is fresh no more. -/
theorem Step.phase_eq (h : t.Step w n now r phase? startedAt news) :
    t.phase ≠ .done ∧ (∀ phase, phase? = some phase → phase ≠ .fresh ∧ phase ≠ .done) ∧
      news.count (.started n) = (if t.phase = .fresh then 1 else 0) ∧ .completed n ∉ news := by
  cases h with
  | starts hp hr =>
    obtain ⟨hphase, hcount, hnot⟩ := hr.phase_eq
    exact ⟨by simp [hp], hphase, by simp [List.count_append, hcount, hp], by simp [hnot]⟩
  | wakes hp _ hr =>
    obtain ⟨hphase, hcount, hnot⟩ := hr.phase_eq
    exact ⟨by simp [hp], hphase, by simp [hcount, hp], hnot⟩
  | calls hp _ hc =>
    obtain ⟨hphase, hcount, hnot⟩ := hc.phase_eq
    exact ⟨by simp [hp], hphase, by simp [hcount, hp], hnot⟩

end Handling

namespace ClaimView

variable {w : World} {i : Nat} {v v' : ClaimView}

theorem update_eq_some {f : Nat → Option Handling} {n k : Nat} {t t' : Handling} :
    Function.update f n (some t') k = some t ↔ k = n ∧ t' = t ∨ k ≠ n ∧ f k = some t := by
  rw [Function.update_apply]
  split
  · rename_i hk
    simp [hk]
  · rename_i hk
    simp [hk]

/-! ## Numbers -/

/-- Handlings are numbered in turn. -/
structure Numbered (i : Nat) (v : ClaimView) : Prop where
  /-- they are this claim's -/
  loop_eq : ∀ n t, v.handling? n = some t → t.loop = i
  /-- their numbers have been given out -/
  handling_lt : ∀ n t, v.handling? n = some t → n < v.next
  /-- as have those of all handlings that something was noted about -/
  event_lt : ∀ event ∈ v.events, ∀ n, event.handling? = some n → n < v.next

theorem Reachable.numbered (hr : Reachable w i v) : v.Numbered i := by
  induction hr with
  | new hn => exact ⟨by simp [hn.idle], by simp [hn.idle], fun event he => (hn.elsewhere event he).2⟩
  | move _ hmove ih =>
    obtain ⟨hloop, hlt, hevent⟩ := ih
    cases hmove with
    | arrives ms => exact ⟨hloop, hlt, hevent⟩
    | told _ _ => exact ⟨hloop, hlt, hevent⟩
    | elsewhere hle hnews =>
      refine ⟨hloop, fun n t ht => Nat.lt_of_lt_of_le (hlt n t ht) hle, ?_⟩
      intro event he n hn
      rcases List.mem_append.1 he with he | he
      · exact ((hnews event he).2 n hn).2
      · exact Nat.lt_of_lt_of_le (hevent event he n hn) hle
    | goes hstep =>
      refine ⟨hloop, hlt, ?_⟩
      intro event he n hn
      rcases List.mem_append.1 he with he | he
      · rw [(hstep.about event he).2] at hn
        cases hn
      · exact hevent event he n hn
    | enters hstep =>
      refine ⟨?_, ?_, ?_⟩
      · intro n t ht
        rcases update_eq_some.1 ht with ⟨-, rfl⟩ | ⟨-, ht⟩
        · rfl
        · exact hloop n t ht
      · intro n t ht
        rcases update_eq_some.1 ht with ⟨rfl, -⟩ | ⟨-, ht⟩
        · exact Nat.lt_succ_self _
        · exact Nat.lt_succ_of_lt (hlt n t ht)
      · intro event he n hn
        rcases List.mem_append.1 he with he | he
        · rw [(hstep.about event he).2] at hn
          cases hn
        · exact Nat.lt_succ_of_lt (hevent event he n hn)
    | handles ht hh =>
      refine ⟨?_, ?_, ?_⟩
      · intro n t hn
        rcases update_eq_some.1 hn with ⟨-, rfl⟩ | ⟨-, hn⟩
        · exact hh.same.1.trans (hloop _ _ ht)
        · exact hloop n t hn
      · intro n t hn
        rcases update_eq_some.1 hn with ⟨rfl, -⟩ | ⟨-, hn⟩
        · exact hlt _ _ ht
        · exact hlt n t hn
      · intro event he n hn
        rcases List.mem_append.1 he with he | he
        · rcases hh.about event he with ⟨-, hn'⟩ | ⟨-, hn'⟩
          · rw [hn'] at hn
            exact Option.some.inj hn ▸ hlt _ _ ht
          · rw [hn'] at hn
            cases hn
        · exact hevent event he n hn

/-! ## Handlings and the journal -/

/-- The journal and the handlings agree. -/
structure Recorded (i : Nat) (v : ClaimView) : Prop where
  /-- a message has a handling when that was noted -/
  entered_iff : ∀ o n, .entered i o n ∈ v.events ↔
    ∃ t, v.handling? n = some t ∧ t.envelope.offset = o
  /-- its handler was called once if at all -/
  started : ∀ n t, v.handling? n = some t →
    v.events.count (.started n) = if t.phase = .fresh then 0 else 1
  /-- it is done when it was completed -/
  completed_iff : ∀ n t, v.handling? n = some t → (.completed n ∈ v.events ↔ t.phase = .done)

theorem Handles.phase_eq {n : Nat} {l l' : ClaimLoop} {t t' : Handling} {news : List Event}
    (h : Handles w i n l t t' l' news) :
    t.phase ≠ .done ∧ t'.phase ≠ .fresh ∧
      news.count (.started n) = (if t.phase = .fresh then 1 else 0) ∧
      (.completed n ∈ news ↔ t'.phase = .done) := by
  cases h with
  | released hp => simp [hp]
  | waits hstep =>
    obtain ⟨hdone, hphase, hcount, hnot⟩ := hstep.phase_eq
    obtain ⟨hfresh', hdone'⟩ := hphase _ rfl
    exact ⟨hdone, hfresh', hcount, by simp [hnot, hdone']⟩
  | @completes _ _ _ mark _ hstep _ =>
    obtain ⟨hdone, -, hcount, -⟩ := hstep.phase_eq
    refine ⟨hdone, by simp, ?_, by simp⟩
    cases mark <;> simp [hcount]

theorem entered_iff_of_step {now next : Nat} {l l' : ClaimLoop} {queue queue' : List Message}
    {env? : Option Envelope} {news : List Event}
    (h : l.Step i now next queue l' queue' env? news) (o : Offset) (n : Nat) :
    .entered i o n ∈ news ↔ n = next ∧ ∃ env, env? = some env ∧ env.offset = o := by
  cases h with
  | @pass m rest fresh due tracker => cases due <;> simp
  | enter => simp [and_comm, eq_comm]
  | unpark => simp [and_comm, eq_comm]
  | _ => simp

/-- What is noted elsewhere, or by the loop without a new handling, leaves the agreement alone. -/
theorem Recorded.of_news {events news : List Event} {next' : Nat} {l' : ClaimLoop}
    {arrived' queue' : List Message} (h : v.Recorded i) (he : v.events = events)
    (hentered : ∀ o n, .entered i o n ∉ news)
    (hnews : ∀ event ∈ news, ∀ n, event.handling? = some n → v.handling? n = none) :
    Recorded i ⟨l', arrived', queue', v.handling?, next', news ++ events⟩ := by
  subst he
  have hnone : ∀ {event : Event} {n t}, event.handling? = some n → v.handling? n = some t →
      event ∉ news :=
    fun hn ht hmem => nomatch (hnews _ hmem _ hn).symm.trans ht
  refine ⟨?_, ?_, ?_⟩
  · intro o n
    rw [← h.entered_iff, List.mem_append, or_iff_right (hentered o n)]
  · intro n t ht
    rw [← h.started n t ht, List.count_append, List.count_eq_zero.2 (hnone rfl ht), Nat.zero_add]
  · intro n t ht
    rw [← h.completed_iff n t ht, List.mem_append, or_iff_right (hnone rfl ht)]

section

variable {now next n : Nat} {l l' : ClaimLoop} {arrived queue queue' : List Message}
  {handling? : Nat → Option Handling} {events news : List Event} {env : Envelope} {t t' : Handling}

/-- A handling that is started is noted. -/
theorem Recorded.enters (h : Recorded i ⟨l, arrived, queue, handling?, next, events⟩)
    (hnum : Numbered i ⟨l, arrived, queue, handling?, next, events⟩)
    (hstep : l.Step i now next queue l' queue' (some env) news) :
    Recorded i ⟨l', arrived, queue',
      Function.update handling? next (some { loop := i, envelope := env }), next + 1,
      news ++ events⟩ := by
  have hnone : ∀ {event : Event} {n}, event.handling? = some n → event ∉ news := fun hn hmem =>
    nomatch (hstep.about _ hmem).2.symm.trans hn
  refine ⟨?_, ?_, ?_⟩
  · intro o n
    rw [List.mem_append, entered_iff_of_step hstep, h.entered_iff]
    simp only [update_eq_some]
    constructor
    · rintro (⟨rfl, env, henv, ho⟩ | ⟨t, ht, ho⟩)
      · exact ⟨_, Or.inl ⟨rfl, rfl⟩, Option.some.inj henv ▸ ho⟩
      · exact ⟨t, Or.inr ⟨Nat.ne_of_lt (hnum.handling_lt n t ht), ht⟩, ho⟩
    · rintro ⟨t, ⟨rfl, rfl⟩ | ⟨-, ht⟩, ho⟩
      · exact Or.inl ⟨rfl, _, rfl, ho⟩
      · exact Or.inr ⟨t, ht, ho⟩
  · intro n t ht
    rw [List.count_append, List.count_eq_zero.2 (hnone rfl), Nat.zero_add]
    rcases update_eq_some.1 ht with ⟨rfl, rfl⟩ | ⟨-, ht⟩
    · -- nothing was noted about a number that is given out only now
      exact List.count_eq_zero.2 fun hmem => Nat.lt_irrefl _ (hnum.event_lt _ hmem _ rfl)
    · exact h.started n t ht
  · intro n t ht
    rw [List.mem_append, or_iff_right (hnone rfl)]
    rcases update_eq_some.1 ht with ⟨rfl, rfl⟩ | ⟨-, ht⟩
    · exact ⟨fun hmem => absurd (hnum.event_lt _ hmem _ rfl) (Nat.lt_irrefl _), nofun⟩
    · exact h.completed_iff n t ht

/-- So is what a handling does. -/
theorem Recorded.handles (h : Recorded i ⟨l, arrived, queue, handling?, next, events⟩)
    (ht : handling? n = some t) (hh : Handles w i n l t t' l' news) :
    Recorded i ⟨l', arrived, queue, Function.update handling? n (some t'), next,
      news ++ events⟩ := by
  obtain ⟨hdone, hfresh, hcount, hcompleted⟩ := hh.phase_eq
  have hother : ∀ {event : Event} {k}, event.handling? = some k → k ≠ n → event ∉ news := by
    intro event k hk hne hmem
    rcases hh.about event hmem with ⟨-, hn⟩ | ⟨-, hn⟩
    · exact hne (Option.some.inj (hk.symm.trans hn))
    · exact nomatch hn.symm.trans hk
  refine ⟨?_, ?_, ?_⟩
  · intro o k
    rw [List.mem_append, or_iff_right, h.entered_iff]
    · simp only [update_eq_some]
      constructor
      · rintro ⟨s, hs, ho⟩
        by_cases hk : k = n
        · subst hk
          obtain rfl := Option.some.inj (ht.symm.trans hs)
          exact ⟨t', Or.inl ⟨rfl, rfl⟩, hh.same.2.1 ▸ ho⟩
        · exact ⟨s, Or.inr ⟨hk, hs⟩, ho⟩
      · rintro ⟨s, ⟨rfl, rfl⟩ | ⟨-, hs⟩, ho⟩
        · exact ⟨t, ht, hh.same.2.1 ▸ ho⟩
        · exact ⟨s, hs, ho⟩
    · intro hmem
      rcases hh.about _ hmem with ⟨hnone, -⟩ | ⟨⟨_, heq⟩, -⟩
      · cases hnone
      · cases heq
  · intro k s hs
    rw [List.count_append]
    rcases update_eq_some.1 hs with ⟨rfl, rfl⟩ | ⟨hk, hs⟩
    · rw [hcount, h.started k t ht, if_neg hfresh]
      split <;> rfl
    · rw [List.count_eq_zero.2 (hother rfl hk), Nat.zero_add, h.started k s hs]
  · intro k s hs
    rw [List.mem_append]
    rcases update_eq_some.1 hs with ⟨rfl, rfl⟩ | ⟨hk, hs⟩
    · rw [hcompleted, h.completed_iff k t ht]
      exact or_iff_left hdone
    · rw [or_iff_right (hother rfl hk), h.completed_iff k s hs]

end

theorem Reachable.recorded (hr : Reachable w i v) : v.Recorded i := by
  induction hr with
  | new hn =>
    refine ⟨?_, by simp [hn.idle], by simp [hn.idle]⟩
    intro o n
    simp only [hn.idle, reduceCtorEq, false_and, exists_false, iff_false]
    exact fun hmem => (hn.elsewhere _ hmem).1 rfl
  | move hr hmove ih =>
    cases hmove with
    | arrives ms => exact ⟨ih.entered_iff, ih.started, ih.completed_iff⟩
    | told _ _ => exact ⟨ih.entered_iff, ih.started, ih.completed_iff⟩
    | elsewhere _ hnews =>
      exact ih.of_news rfl (fun o n hmem => (hnews _ hmem).1 rfl)
        fun event he n hn => ((hnews event he).2 n hn).1
    | goes hstep =>
      refine ih.of_news rfl ?_ ?_
      · intro o n
        rw [entered_iff_of_step hstep]
        simp
      · intro event he n hn
        rw [(hstep.about event he).2] at hn
        cases hn
    | enters hstep => exact ih.enters hr.numbered hstep
    | handles ht hh => exact ih.handles ht hh

/-! ## Tokens -/

theorem Reachable.fits (hr : Reachable w i v) : v.loop.PoolFits := by
  induction hr with
  | new hn =>
    obtain ⟨member, m, claim, hl⟩ := hn.loop_eq
    rw [hl]
    exact ⟨TokenPool.balanced_ofCapacity _, TokenPool.isQuiet_ofCapacity _, rfl⟩
  | move _ hmove ih =>
    cases hmove with
    | arrives ms => exact ih
    | told _ _ => exact ⟨ih.balanced, ih.asks⟩
    | elsewhere _ _ => exact ih
    | goes hstep => exact ih.step hstep
    | enters hstep => exact ih.step hstep
    | handles _ hh =>
      cases hh with
      | completes _ hc => exact ih.completes hc
      | _ => exact ih

/-- The tokens are held by the handlings that are not done. -/
structure Tokens (v : ClaimView) : Prop where
  /-- nobody holds two -/
  nodup : v.loop.pool.held.Nodup
  /-- who holds one -/
  mem_iff : ∀ u, u ∈ v.loop.pool.held ↔
    ∃ n t, u = .handling n ∧ v.handling? n = some t ∧ t.phase ≠ .done

section

variable {now next n : Nat} {l l' : ClaimLoop} {arrived queue queue' : List Message}
  {handling? : Nat → Option Handling} {events news : List Event} {env : Envelope} {t t' : Handling}

/-- A handling that is started gets a token. -/
theorem Tokens.enters (h : Tokens ⟨l, arrived, queue, handling?, next, events⟩)
    (hnum : Numbered i ⟨l, arrived, queue, handling?, next, events⟩) (hfit : l.PoolFits)
    (hstep : l.Step i now next queue l' queue' (some env) news) :
    Tokens ⟨l', arrived, queue',
      Function.update handling? next (some { loop := i, envelope := env }), next + 1,
      news ++ events⟩ := by
  obtain ⟨hnodup, hmem⟩ := h
  have hheld := hstep.held_eq hfit
  rw [Option.map_some, Option.toList_some] at hheld
  refine ⟨?_, ?_⟩
  · rw [hheld, List.nodup_append]
    refine ⟨hnodup, List.nodup_singleton _, ?_⟩
    intro u hu u' hu' heq
    obtain ⟨n, t, rfl, ht, -⟩ := (hmem u).1 hu
    rw [List.mem_singleton.1 hu'] at heq
    exact Nat.ne_of_lt (hnum.handling_lt n t ht) (PoolUser.handling.inj heq)
  · intro u
    rw [hheld, List.mem_append, List.mem_singleton, hmem]
    simp only [update_eq_some]
    constructor
    · rintro (⟨n, t, rfl, ht, hp⟩ | rfl)
      · exact ⟨n, t, rfl, Or.inr ⟨Nat.ne_of_lt (hnum.handling_lt n t ht), ht⟩, hp⟩
      · exact ⟨_, _, rfl, Or.inl ⟨rfl, rfl⟩, nofun⟩
    · rintro ⟨n, t, rfl, ⟨rfl, -⟩ | ⟨-, ht⟩, hp⟩
      · exact Or.inr rfl
      · exact Or.inl ⟨n, t, rfl, ht, hp⟩

/-- A handling keeps its token until its message is completed. -/
theorem Tokens.handles (h : Tokens ⟨l, arrived, queue, handling?, next, events⟩)
    (ht : handling? n = some t) (hh : Handles w i n l t t' l' news) :
    Tokens ⟨l', arrived, queue, Function.update handling? n (some t'), next, news ++ events⟩ := by
  obtain ⟨hnodup, hmem⟩ := h
  have hdone := hh.phase_eq.1
  have hupdate : ∀ u, (∃ k s, u = .handling k ∧
      Function.update handling? n (some t') k = some s ∧ s.phase ≠ .done) ↔
      u = .handling n ∧ t'.phase ≠ .done ∨ u ∈ l.pool.held ∧ u ≠ .handling n := by
    intro u
    rw [hmem]
    simp only [update_eq_some]
    constructor
    · rintro ⟨k, s, rfl, ⟨rfl, rfl⟩ | ⟨hk, hs⟩, hp⟩
      · exact Or.inl ⟨rfl, hp⟩
      · exact Or.inr ⟨⟨k, s, rfl, hs, hp⟩, fun heq => hk (PoolUser.handling.inj heq)⟩
    · rintro (⟨rfl, hp⟩ | ⟨⟨k, s, rfl, hs, hp⟩, hne⟩)
      · exact ⟨n, t', rfl, Or.inl ⟨rfl, rfl⟩, hp⟩
      · exact ⟨k, s, rfl, Or.inr ⟨fun hk => hne (hk ▸ rfl), hs⟩, hp⟩
  have hin : .handling n ∈ l.pool.held := (hmem _).2 ⟨n, t, rfl, ht, hdone⟩
  -- the token stays where it is until the message is completed
  have hstays : t'.phase ≠ .done → l'.pool.held = l.pool.held →
      Tokens ⟨l', arrived, queue, Function.update handling? n (some t'), next, news ++ events⟩ := by
    intro hp hheld
    refine ⟨hheld ▸ hnodup, ?_⟩
    intro u
    rw [hupdate u, hheld]
    by_cases hu : u = .handling n
    · simp [hu, hp, hin]
    · simp [hu]
  cases hh with
  | released => exact hstays nofun rfl
  | waits hstep => exact hstays (hstep.phase_eq.2.1 _ rfl).2 rfl
  | completes _ hc =>
    have hheld : l'.pool.held = l.pool.held.erase (.handling n) := by
      cases hc <;> exact TokenPool.held_release _ _
    refine ⟨hheld ▸ hnodup.erase _, ?_⟩
    intro u
    rw [hupdate u, hheld, hnodup.mem_erase_iff]
    simp [and_comm]

end

theorem Reachable.tokens (hr : Reachable w i v) : v.Tokens := by
  induction hr with
  | new hn =>
    obtain ⟨member, m, claim, hl⟩ := hn.loop_eq
    have hheld : (member.loopFor m claim).pool.held = [] := rfl
    exact ⟨by simp [hl, hheld], by simp [hl, hheld, hn.idle]⟩
  | move hr hmove ih =>
    cases hmove with
    | arrives ms => exact ⟨ih.nodup, ih.mem_iff⟩
    | told _ _ => exact ⟨ih.nodup, ih.mem_iff⟩
    | elsewhere _ _ => exact ⟨ih.nodup, ih.mem_iff⟩
    | goes hstep =>
      have hheld := hstep.held_eq hr.fits
      rw [Option.map_none, Option.toList_none, List.append_nil] at hheld
      exact ⟨hheld ▸ ih.nodup, hheld ▸ ih.mem_iff⟩
    | enters hstep => exact ih.enters hr.numbered hr.fits hstep
    | handles ht hh => exact ih.handles ht hh

/-! ## Where messages come from -/

/-- An envelope holds a message that has come in on the claim and that its group is to handle. -/
def Holds (v : ClaimView) (env : Envelope) : Prop :=
  ∃ m ∈ v.arrived, (∃ fresh, env = .ofMessage fresh v.loop.source m) ∧
    env.isAddressedTo v.loop.group = true

/-- What is handled, passed over or parked has come in on the claim. -/
structure ComesFrom (i : Nat) (v : ClaimView) : Prop where
  /-- what was not taken is what came in last -/
  queue_suffix : v.queue <:+ v.arrived
  /-- a message that is handled is addressed to the group -/
  handled : ∀ n t, v.handling? n = some t → v.Holds t.envelope
  /-- so is one that waits for a token -/
  waiting : ∀ env, v.loop.phase = .parked env → v.Holds env
  /-- and one that ever did -/
  parked : ∀ o, .parked i o ∈ v.events → ∃ env, v.Holds env ∧ env.offset = o
  /-- a message that was passed over is not -/
  skipped : ∀ o, .skipped i o ∈ v.events → ∃ m ∈ v.arrived, m.offset = o ∧
    ∀ fresh, (Envelope.ofMessage fresh v.loop.source m).isAddressedTo v.loop.group = false

theorem Holds.mono {env : Envelope} (h : v.Holds env) (ha : ∀ m ∈ v.arrived, m ∈ v'.arrived)
    (hs : SameClaim v.loop v'.loop) : v'.Holds env := by
  obtain ⟨m, hm, hfresh, haddr⟩ := h
  exact ⟨m, ha m hm, hs.source_eq ▸ hfresh, hs.group_eq ▸ haddr⟩

/-- Nothing is ever struck from the record of what came in. -/
theorem Move.arrived_prefix (h : Move w i v v') : v.arrived <+: v'.arrived := by
  cases h with
  | arrives ms => exact List.prefix_append _ _
  | _ => exact List.prefix_refl _

/-- What a step of the loop passes over, parks or starts a handling for is the next message in the
queue, or the one that waited for a token. -/
theorem comesFrom_of_step {now next : Nat} {l l' : ClaimLoop} {queue queue' : List Message}
    {env? : Option Envelope} {news : List Event}
    (h : l.Step i now next queue l' queue' env? news) :
    (queue' <:+ queue) ∧
      (∀ env, env? = some env ∨ l'.phase = .parked env → l.phase = .parked env ∨
        ∃ m ∈ queue, (∃ fresh, env = .ofMessage fresh l.source m) ∧ env.isAddressedTo l.group = true) ∧
      (∀ o, .parked i o ∈ news → ∃ env, l'.phase = .parked env ∧ env.offset = o) ∧
      ∀ o, .skipped i o ∈ news → ∃ m ∈ queue, m.offset = o ∧
        ∀ fresh, (Envelope.ofMessage fresh l.source m).isAddressedTo l.group = false := by
  cases h with
  | @pass m rest fresh due tracker ht haddr =>
    refine ⟨List.suffix_cons _ _, ?_, ?_, ?_⟩
    · simp [ht.receiving]
    · cases due <;> simp
    · cases due <;> simp <;> exact Or.inl fun _ => haddr
  | crash ht haddr =>
    refine ⟨List.nil_suffix, by simp, by simp, ?_⟩
    simp only [List.mem_cons, reduceCtorEq, Event.skipped.injEq, true_and, false_or, List.not_mem_nil,
      or_false]
    rintro o rfl
    exact ⟨_, Or.inl rfl, rfl, fun _ => haddr⟩
  | @enter m rest fresh pool ht haddr =>
    refine ⟨List.suffix_cons _ _, ?_, by simp, by simp⟩
    simp only [Option.some.injEq, reduceCtorEq, or_false]
    rintro env rfl
    exact Or.inr ⟨m, List.mem_cons_self, ⟨fresh, rfl⟩, haddr⟩
  | @park m rest fresh pool ht haddr =>
    refine ⟨List.suffix_cons _ _, ?_, by simp, by simp⟩
    simp only [reduceCtorEq, LoopPhase.parked.injEq, false_or]
    rintro env rfl
    exact Or.inr ⟨m, List.mem_cons_self, ⟨fresh, rfl⟩, haddr⟩
  | unpark hp =>
    refine ⟨List.suffix_refl _, ?_, by simp, by simp⟩
    simp only [Option.some.injEq, reduceCtorEq, or_false]
    rintro env rfl
    exact Or.inl hp
  | drain => exact ⟨List.suffix_refl _, by simp, by simp, by simp⟩
  | finish => exact ⟨List.nil_suffix, by simp, by simp, by simp⟩

/-- What some events tell of messages that were parked or passed over is so. -/
structure Tells (i : Nat) (v : ClaimView) (events : List Event) : Prop where
  /-- what was parked has come in and is for the group -/
  parked : ∀ o, .parked i o ∈ events → ∃ env, v.Holds env ∧ env.offset = o
  /-- what was passed over has come in and is not -/
  skipped : ∀ o, .skipped i o ∈ events → ∃ m ∈ v.arrived, m.offset = o ∧
    ∀ fresh, (Envelope.ofMessage fresh v.loop.source m).isAddressedTo v.loop.group = false

section

variable {events news : List Event}

theorem Tells.append (h : v.Tells i events) (h' : v.Tells i news) : v.Tells i (news ++ events) where
  parked o ho := (List.mem_append.1 ho).elim (h'.parked o) (h.parked o)
  skipped o ho := (List.mem_append.1 ho).elim (h'.skipped o) (h.skipped o)

/-- What was told stays so. -/
theorem Tells.mono (h : v.Tells i events) (ha : ∀ m ∈ v.arrived, m ∈ v'.arrived)
    (hs : SameClaim v.loop v'.loop) : v'.Tells i events where
  parked o ho := by
    obtain ⟨env, henv, ho⟩ := h.parked o ho
    exact ⟨env, henv.mono ha hs, ho⟩
  skipped o ho := by
    obtain ⟨m, hm, ho, haddr⟩ := h.skipped o ho
    rw [hs.source_eq, hs.group_eq]
    exact ⟨m, ha m hm, ho, haddr⟩

/-- What is noted elsewhere or by a handling tells nothing of such messages. -/
theorem Tells.of_about (h : ∀ event ∈ news, event.claim? ≠ some i ∨ ∃ o, event = .marked i o) :
    v.Tells i news where
  parked o ho := by
    rcases h _ ho with hne | ⟨_, heq⟩
    · exact absurd rfl hne
    · cases heq
  skipped o ho := by
    rcases h _ ho with hne | ⟨_, heq⟩
    · exact absurd rfl hne
    · cases heq

/-- What the loop notes is so, and what it starts a handling for or parks is for the group. -/
theorem ComesFrom.of_step {now next : Nat} {queue' : List Message} {env? : Option Envelope}
    (h : v.ComesFrom i) (hstep : v.loop.Step i now next v.queue v'.loop queue' env? news)
    (ha : ∀ m ∈ v.arrived, m ∈ v'.arrived) :
    (∀ env, env? = some env ∨ v'.loop.phase = .parked env → v'.Holds env) ∧ v'.Tells i news := by
  have hsame := hstep.sameClaim
  obtain ⟨-, hstarts, hparked, hskipped⟩ := comesFrom_of_step hstep
  have hholds : ∀ env, env? = some env ∨ v'.loop.phase = .parked env → v'.Holds env := by
    intro env henv
    rcases hstarts env henv with hphase | ⟨m, hm, hfresh, haddr⟩
    · exact (h.waiting env hphase).mono ha hsame
    · have hnext : v.Holds env := ⟨m, h.queue_suffix.subset hm, hfresh, haddr⟩
      exact hnext.mono ha hsame
  refine ⟨hholds, ?_, ?_⟩
  · intro o ho
    obtain ⟨env, hphase, ho⟩ := hparked o ho
    exact ⟨env, hholds env (Or.inr hphase), ho⟩
  · intro o ho
    obtain ⟨m, hm, ho, haddr⟩ := hskipped o ho
    rw [hsame.source_eq, hsame.group_eq]
    exact ⟨m, ha m (h.queue_suffix.subset hm), ho, haddr⟩

end

theorem Reachable.comesFrom (hr : Reachable w i v) : v.ComesFrom i := by
  induction hr with
  | new hn =>
    obtain ⟨member, m, claim, hl⟩ := hn.loop_eq
    have hphase : (member.loopFor m claim).phase = .receiving := rfl
    refine ⟨hn.unread ▸ List.suffix_refl _, by simp [hn.idle], by simp [hl, hphase], ?_, ?_⟩
    · exact fun o hmem => absurd rfl (hn.elsewhere _ hmem).1
    · exact fun o hmem => absurd rfl (hn.elsewhere _ hmem).1
  | @move v v' hr hmove ih =>
    have harrived : ∀ m ∈ v.arrived, m ∈ v'.arrived := fun m hm => hmove.arrived_prefix.subset hm
    have hholds : ∀ {env}, v.Holds env → v'.Holds env := fun h => h.mono harrived hmove.sameClaim
    have hhandled := fun n t ht => hholds (ih.handled n t ht)
    have hwaiting := fun env hp => hholds (ih.waiting env hp)
    have hold : v'.Tells i v.events :=
      Tells.mono ⟨ih.parked, ih.skipped⟩ harrived hmove.sameClaim
    cases hmove with
    | arrives ms =>
      refine ⟨?_, hhandled, hwaiting, hold.parked, hold.skipped⟩
      obtain ⟨taken, htaken⟩ := ih.queue_suffix
      exact ⟨taken, (List.append_assoc _ _ _).symm.trans (congrArg (· ++ ms) htaken)⟩
    | told _ _ => exact ⟨ih.queue_suffix, hhandled, hwaiting, hold.parked, hold.skipped⟩
    | elsewhere _ hnews =>
      have hall := hold.append (.of_about fun event he => Or.inl (hnews event he).1)
      exact ⟨ih.queue_suffix, hhandled, hwaiting, hall.parked, hall.skipped⟩
    | goes hstep =>
      obtain ⟨hstarts, htells⟩ := ih.of_step hstep harrived
      have hall := hold.append htells
      exact ⟨(comesFrom_of_step hstep).1.trans ih.queue_suffix, hhandled,
        fun env henv => hstarts env (Or.inr henv), hall.parked, hall.skipped⟩
    | enters hstep =>
      obtain ⟨hstarts, htells⟩ := ih.of_step hstep harrived
      have hall := hold.append htells
      refine ⟨(comesFrom_of_step hstep).1.trans ih.queue_suffix, ?_, fun env henv => hstarts env
        (Or.inr henv), hall.parked, hall.skipped⟩
      intro n t ht
      rcases update_eq_some.1 ht with ⟨-, rfl⟩ | ⟨-, ht⟩
      · exact hstarts _ (Or.inl rfl)
      · exact hhandled n t ht
    | @handles _ _ _ _ _ _ _ _ news _ _ ht hh =>
      have habout : ∀ event ∈ news, event.claim? ≠ some i ∨ ∃ o, event = .marked i o := by
        intro event he
        rcases hh.about event he with ⟨hnone, -⟩ | ⟨hmarked, -⟩
        · exact Or.inl (by simp [hnone])
        · exact Or.inr hmarked
      have hall := hold.append (.of_about habout)
      refine ⟨ih.queue_suffix, ?_, fun env henv => hwaiting env ?_, hall.parked, hall.skipped⟩
      · intro n t hn
        rcases update_eq_some.1 hn with ⟨-, rfl⟩ | ⟨-, hn⟩
        · rw [hh.same.2.1]
          exact hhandled _ _ ht
        · exact hhandled n t hn
      · exact hh.loop_phase.symm.trans henv

end ClaimView

end ConsumerGroup
