import ConsumerGroup.Proofs.Feedback.Bounds
import Mathlib.Algebra.Order.BigOperators.Group.Finset

/-!
# A run becomes quiet

A claim loop that goes on takes a message or starts a handling, and there are only so many of these.
A handling that goes on has less to do after that.  So from some point on no claim loop and no handling
goes on, however long the run is.

* `Engine.Step.grows` — takes and handlings are never undone; `progress_of_stepLoop?` — a claim loop
  adds one.
* `Handling.remaining`, `Engine.remaining` — what handlings have to do at most, less after each step of
  one.
* `Endless` — runs without an end; `Feeding.exists_endless` — any run can be made one.

Main statement: `Endless.becomes_quiet`.
-/

namespace ConsumerGroup

open Finset (sum_lt_sum sum_congr)

variable {w : World} {topic : String} {k k' : Ledger} {e e' : Engine} {t? : Option TaskId}

/-! ## What is never undone -/

/-- A claim loop that goes on takes a message or starts a handling, or has stopped. -/
theorem ClaimLoop.Step.progress {i now next : Nat} {l l' : ClaimLoop} {queue queue' : List Message}
    {env? : Option Envelope} {news : List Event} (h : l.Step i now next queue l' queue' env? news) :
    0 < (news.filterMap Event.take?).length + env?.toList.length ∨ l'.IsStopped := by
  have hstopped : ∀ {l' : ClaimLoop}, l'.phase ≠ .receiving ∧ (∀ env, l'.phase ≠ .parked env) →
      l'.IsStopped := fun h => Or.inr (Or.inr h)
  cases h with
  | @pass m rest fresh due tracker => cases due <;> exact Or.inl (by simp [Event.take?])
  | crash => exact Or.inr (hstopped (by simp))
  | drain => exact Or.inr (hstopped (by simp))
  | finish => exact Or.inr (hstopped (by simp))
  | _ => exact Or.inl (by simp [Event.take?])

namespace Engine

theorem takes_of_journal_eq {now : Nat} {news : List Event}
    (h : e'.journal = news.map (now, ·) ++ e.journal) :
    e'.takes = news.filterMap Event.take? ++ e.takes := by
  rw [takes, events_of_journal_eq h, List.filterMap_append, takes]

/-- Takes and handlings are never undone. -/
theorem Step.grows (h : Step w e e') (hs : e.Sound) :
    e.takes.length ≤ e'.takes.length ∧ e.handlings.size ≤ e'.handlings.size := by
  have hnoted : ∀ {now : Nat} {news : List Event}, e'.journal = news.map (now, ·) ++ e.journal →
      e.takes.length ≤ e'.takes.length := by
    intro now news hj
    rw [takes_of_journal_eq hj, List.length_append]
    exact Nat.le_add_left _ _
  cases h with
  | task t ht =>
    cases t with
    | member m =>
      obtain ⟨member, b, loops, phase, news, -, -, hmv⟩ := stepMember?_inv ht
      exact ⟨hnoted hmv.journal_eq, Nat.le_of_eq (congrArg Array.size hmv.handlings_eq.symm)⟩
    | loop i =>
      obtain ⟨l, l', queue, env?, news, -, -, hgoes⟩ :=
        stepLoop?_inv ht (hs.fits i) fun l hl => hs.channel_lt hl
      refine ⟨hnoted hgoes.journal_eq, ?_⟩
      rw [hgoes.handlings_eq]
      cases env? <;> simp
    | handling n =>
      obtain ⟨t, l, phase?, startedAt, news, -, -, -, hcomes⟩ := stepHandling?_inv ht (hs.loop_lt n)
      cases hcomes with
      | waits hh =>
        refine ⟨hnoted hh.journal_eq, ?_⟩
        rw [hh.handlings_eq, Array.size_setIfInBounds]
      | completes _ hh =>
        refine ⟨hnoted hh.journal_eq, ?_⟩
        rw [hh.handlings_eq, Array.size_setIfInBounds]
  | act a =>
    by_cases ha : ∃ n, a = .release n
    · obtain ⟨n, rfl⟩ := ha
      obtain ⟨handlings, hrelease, hhandlings⟩ := e.releaseHandling_inv n
      rw [Engine.act, hrelease]
      refine ⟨Nat.le_refl _, Nat.le_of_eq ?_⟩
      rcases hhandlings with rfl | ⟨t, rest, -, -, rfl⟩
      · rfl
      · rw [Array.size_setIfInBounds]
    · have ho : e.Outside (e.act a) := outside_act a fun n hn => ha ⟨n, hn⟩
      obtain ⟨news, hevents, -⟩ := ho.noted
      refine ⟨?_, Nat.le_of_eq (congrArg Array.size ho.handlings_eq.symm)⟩
      rw [takes, takes, hevents, List.filterMap_append, List.length_append]
      exact Nat.le_add_left _ _
  | tick => exact ⟨Nat.le_refl _, Nat.le_refl _⟩

/-- **Claim loops.**  A claim loop that goes on and does not stop has taken a message or has started a
handling. -/
theorem progress_of_stepLoop? {i : Nat} (h : e.stepLoop? w i = some e') (hs : e.Sound)
    (hgoing : ∀ l, e'.loops[i]? = some l → ¬ l.IsStopped) :
    e.takes.length + e.handlings.size < e'.takes.length + e'.handlings.size := by
  obtain ⟨l, l', queue, env?, news, hl, hstep, hgoes⟩ :=
    stepLoop?_inv h (hs.fits i) fun l hl => hs.channel_lt hl
  have hl' : e'.loops[i]? = some l' := by
    obtain ⟨hlt, -⟩ := Array.getElem?_eq_some_iff.1 hl
    rw [hgoes.loops_eq, Array.getElem?_setIfInBounds_self_of_lt hlt]
  have hprogress := hstep.progress.resolve_right (hgoing l' hl')
  rw [takes_of_journal_eq hgoes.journal_eq, hgoes.handlings_eq, List.length_append]
  cases env? with
  | none =>
    rw [Option.toList_none, List.length_nil] at hprogress
    change _ < _ + _ + e.handlings.size
    omega
  | some env =>
    change _ < _ + _ + (e.handlings.push _).size
    rw [Array.size_push]
    omega

end Engine

/-! ## What handlings have to do -/

/-- How often handling number `n` can go on at most, if its handler is released whenever it waits. -/
def Handling.remaining (w : World) (n : Nat) (t : Handling) : Nat :=
  match t.phase with
  | .fresh => (w.handler n t.envelope).length + (maxPublishCalls + 1)
  | .held rest | .pausing _ rest => rest.length + (maxPublishCalls + 1)
  | .resting calls _ _ _ => maxPublishCalls - calls + 1
  | .done => 0

namespace Handling

variable {n now : Nat} {r : Redeliverer} {t : Handling} {phase? : Option HandlingPhase}
  {startedAt : Nat} {news : List Event}

/-- After a call of the producer there are fewer calls to make. -/
theorem Calls.remaining_le {calls delay : Nat} {record : Record}
    (h : Calls w n now calls delay record phase? news) (startedAt : Nat) :
    ({ t with phase := phase?.getD .done, startedAt } : Handling).remaining w n ≤
      maxPublishCalls - calls := by
  cases h with
  | @again reply hv =>
    -- the producer is called again only while there are calls left
    have hlt : calls + 1 < maxPublishCalls := by
      cases reply with
      | accepted => cases hv
      | refused error =>
        rw [Verdict.of] at hv
        split at hv
        · rename_i hboth
          rw [Bool.and_eq_true, decide_eq_true_eq] at hboth
          exact hboth.2
        · cases hv
      | panicked => cases hv
    change maxPublishCalls - (calls + 1) + 1 ≤ maxPublishCalls - calls
    omega
  | ended => exact Nat.zero_le _

/-- The handler goes on with a shorter program, or only calls of the producer are left. -/
theorem Runs.remaining_lt {program : Handler.Program}
    (h : Runs w n now r t.envelope program phase? news) (startedAt : Nat) :
    ({ t with phase := phase?.getD .done, startedAt } : Handling).remaining w n <
      program.length + (maxPublishCalls + 1) := by
  cases h with
  | redelivers _ hc =>
    have hle := hc.remaining_le (t := t) startedAt
    exact Nat.lt_of_le_of_lt hle (by omega)
  | @holds rest =>
    change rest.length + (maxPublishCalls + 1) < rest.length + 1 + (maxPublishCalls + 1)
    omega
  | @pauses millis rest =>
    change rest.length + (maxPublishCalls + 1) < rest.length + 1 + (maxPublishCalls + 1)
    omega
  | _ => exact Nat.lt_of_lt_of_le (Nat.succ_pos maxPublishCalls) (Nat.le_add_left _ _)

/-- A handling that goes on has less to do. -/
theorem Step.remaining_lt (h : t.Step w n now r phase? startedAt news) :
    ({ t with phase := phase?.getD .done, startedAt } : Handling).remaining w n < t.remaining w n := by
  cases h with
  | starts hp hr =>
    rw [remaining.eq_def w n t, hp]
    exact hr.remaining_lt now
  | wakes hp _ hr =>
    rw [remaining.eq_def w n t, hp]
    exact hr.remaining_lt _
  | calls hp _ hc =>
    rw [remaining.eq_def w n t, hp]
    exact Nat.lt_succ_of_le (hc.remaining_le _)

end Handling

namespace Engine

/-- What all handlings have to do. -/
def remaining (w : World) (e : Engine) : Nat :=
  ∑ n ∈ Finset.range e.handlings.size, (e.handlings[n]?).elim 0 (·.remaining w n)

theorem remaining_congr (h : e'.handlings = e.handlings) : e'.remaining w = e.remaining w := by
  rw [remaining, h, remaining]

/-- When one handling changes, what it has to do decides. -/
theorem remaining_set {n : Nat} {t t' : Handling} (ht : e.handlings[n]? = some t)
    (hset : e'.handlings = e.handlings.setIfInBounds n t') :
    (t'.remaining w n = t.remaining w n → e'.remaining w = e.remaining w) ∧
      (t'.remaining w n < t.remaining w n → e'.remaining w < e.remaining w) := by
  obtain ⟨hlt, -⟩ := Array.getElem?_eq_some_iff.1 ht
  have hself : e'.handlings[n]? = some t' := by
    rw [hset, Array.getElem?_setIfInBounds_self_of_lt hlt]
  have hother : ∀ j, j ≠ n → e'.handlings[j]? = e.handlings[j]? := fun j hj => by
    rw [hset, Array.getElem?_setIfInBounds_ne hj.symm]
  have hsize : e'.handlings.size = e.handlings.size := by rw [hset, Array.size_setIfInBounds]
  rw [remaining, remaining, hsize]
  refine ⟨fun heq => sum_congr rfl fun j _ => ?_, fun hless => sum_lt_sum (fun j _ => ?_)
    ⟨n, Finset.mem_range.2 hlt, ?_⟩⟩
  · by_cases hj : j = n
    · rw [hj, hself, ht]
      exact heq
    · rw [hother j hj]
  · by_cases hj : j = n
    · rw [hj, hself, ht]
      exact Nat.le_of_lt hless
    · rw [hother j hj]
  · rw [hself, ht]
    exact hless

/-- **Handlings.**  A handling that goes on leaves less to do. -/
theorem remaining_of_stepHandling? {n : Nat} (h : e.stepHandling? w n = some e') (hs : e.Sound) :
    e'.remaining w < e.remaining w := by
  obtain ⟨t, l, phase?, startedAt, news, ht, -, hstep, hcomes⟩ := stepHandling?_inv h (hs.loop_lt n)
  cases hcomes with
  | waits hh => exact (remaining_set ht hh.handlings_eq).2 hstep.remaining_lt
  | completes _ hh => exact (remaining_set ht hh.handlings_eq).2 hstep.remaining_lt

/-- Nothing from outside adds to what handlings have to do. -/
theorem remaining_act (a : Act) : (e.act a).remaining w = e.remaining w := by
  by_cases ha : ∃ n, a = .release n
  · obtain ⟨n, rfl⟩ := ha
    obtain ⟨handlings, hrelease, hsame | ⟨t, rest, ht, hp, hset⟩⟩ := e.releaseHandling_inv n
    · exact remaining_congr (by rw [act, hrelease, hsame])
    · refine (remaining_set ht (by rw [act, hrelease, hset])).1 ?_
      rw [Handling.remaining.eq_def w n t, hp]
      rfl
  · have ho : e.Outside (e.act a) := outside_act a fun n hn => ha ⟨n, hn⟩
    exact remaining_congr ho.handlings_eq

end Engine

/-! ## Runs without an end -/

/-- What does not grow settles. -/
theorem exists_settled {f : Nat → Nat} {j : Nat} (h : ∀ i, j ≤ i → f (i + 1) ≤ f i) :
    ∃ i, j ≤ i ∧ ∀ i', i ≤ i' → f i' = f i := by
  induction hf : f j using Nat.strong_induction_on generalizing j with
  | _ x ih =>
    by_cases hless : ∃ i, j ≤ i ∧ f i < f j
    · obtain ⟨i, hi, hlt⟩ := hless
      obtain ⟨i', hi', hsettled⟩ := ih (f i) (hf ▸ hlt) (fun i' hi' => h i' (Nat.le_trans hi hi')) rfl
      exact ⟨i', Nat.le_trans hi hi', hsettled⟩
    · have hle : ∀ i, j ≤ i → f i ≤ f j := by
        intro i hi
        induction i, hi using Nat.le_induction with
        | base => exact Nat.le_refl _
        | succ i hi ih => exact Nat.le_trans (h i hi) ih
      refine ⟨j, Nat.le_refl j, fun i hi => Nat.le_antisymm (hle i hi) ?_⟩
      exact Nat.le_of_not_lt fun hlt => hless ⟨i, hi, hlt⟩

/-- What grows up to a bound settles. -/
theorem exists_settled_of_le {f : Nat → Nat} {bound : Nat} (h : ∀ i, f i ≤ f (i + 1))
    (hle : ∀ i, f i ≤ bound) : ∃ i, ∀ i', i ≤ i' → f i' = f i := by
  obtain ⟨i, -, hsettled⟩ := exists_settled (f := fun i => bound - f i) (j := 0)
    fun i _ => Nat.sub_le_sub_left (h i) bound
  refine ⟨i, fun i' hi' => ?_⟩
  have heq := hsettled i' hi'
  have := hle i
  have := hle i'
  omega

/-- What settles is bounded. -/
theorem exists_bound {f : Nat → Nat} {j : Nat} (h : ∀ i, j ≤ i → f i = f j) :
    ∃ bound, ∀ i, f i ≤ bound := by
  refine ⟨(Finset.range (j + 1)).sup f, fun i => ?_⟩
  rcases Nat.le_total i j with hle | hge
  · exact Finset.le_sup (Finset.mem_range.2 (Nat.lt_succ_of_le hle))
  · rw [h i hge]
    exact Finset.le_sup (Finset.mem_range.2 (Nat.lt_succ_self j))

/-- A run without an end: the ledger, the engine and the task that goes on, at each time. -/
structure Endless (w : World) (topic : String) (k : Nat → Ledger) (e : Nat → Engine)
    (t? : Nat → Option TaskId) : Prop where
  /-- it begins with nothing -/
  start : k 0 = {} ∧ e 0 = {}
  /-- one thing happens after the other -/
  step : ∀ j, Feeds w topic (k j) (e j) (t? j) (k (j + 1)) (e (j + 1))
  /-- and all claims go on -/
  steady : ∀ j, (e j).Steady topic

/-- Any run can go on without an end, if only in that time passes. -/
theorem Feeding.exists_endless (h : Feeding w topic k e) :
    ∃ (ks : Nat → Ledger) (es : Nat → Engine) (ts : Nat → Option TaskId) (j : Nat),
      Endless w topic ks es ts ∧ ∀ i, j ≤ i → ks i = k ∧ es i = e := by
  induction h with
  | new =>
    exact ⟨fun _ => {}, fun _ => {}, fun _ => none, 0,
      ⟨⟨rfl, rfl⟩, fun _ => .tick 0 (Nat.le_refl 0), fun _ => (Feeding.new (w := w)).steady⟩,
      fun _ _ => ⟨rfl, rfl⟩⟩
  | @step k k' e e' t? _ hstep hsteady ih =>
    obtain ⟨ks, es, ts, j, hendless, hlast⟩ := ih
    obtain ⟨hk, he⟩ := hlast j (Nat.le_refl j)
    refine ⟨fun i => if i ≤ j then ks i else k', fun i => if i ≤ j then es i else e',
      fun i => if i < j then ts i else if i = j then t? else none, j + 1, ⟨?_, ?_, ?_⟩, ?_⟩
    · simp [hendless.start]
    · intro i
      rcases Nat.lt_trichotomy i j with hlt | rfl | hgt
      · simpa [hlt, Nat.le_of_lt hlt, Nat.succ_le_of_lt hlt] using hendless.step i
      · simpa [hk, he] using hstep
      · have hnot : ¬ i ≤ j ∧ ¬ i + 1 ≤ j ∧ ¬ i < j ∧ i ≠ j := by omega
        simp only [hnot, if_false]
        exact .tick e'.now (Nat.le_refl _)
    · intro i
      by_cases hi : i ≤ j
      · simpa [hi] using hendless.steady i
      · simpa [hi] using hsteady
    · intro i hi
      have hnot : ¬ i ≤ j := Nat.not_le.2 hi
      simp [hnot]

namespace Endless

variable {k : Nat → Ledger} {e : Nat → Engine} {t? : Nat → Option TaskId}

theorem feeding (h : Endless w topic k e t?) (j : Nat) : Feeding w topic (k j) (e j) := by
  induction j with
  | zero =>
    rw [h.start.1, h.start.2]
    exact .new
  | succ j ih => exact .step ih (h.step j) (h.steady (j + 1))

/-- How many messages were admitted, how many were taken and how many handlings there are. -/
def work (topic : String) (k : Ledger) (e : Engine) : Nat :=
  (k.places topic).length + (e.takes.length + e.handlings.size)

/-- Work is never undone, and a message that is admitted adds to it. -/
theorem work_grows (h : Endless w topic k e t?) (j : Nat) :
    work topic (k j) (e j) ≤ work topic (k (j + 1)) (e (j + 1)) ∧
      (work topic (k (j + 1)) (e (j + 1)) = work topic (k j) (e j) → k (j + 1) = k j) := by
  obtain ⟨htakes, hhandlings⟩ := (h.step j).step.grows (h.feeding j).service.sound
  simp only [work]
  rcases ((h.feeding j).admits (h.step j)).ledger with heq | hmore
  · rw [heq]
    exact ⟨by omega, fun _ => rfl⟩
  · exact ⟨by omega, fun hsame => by omega⟩

/-- The messages from outside and the members bound the work. -/
theorem work_le (h : Endless w topic k e t?) {messages members : Nat}
    (hmessages : ∀ j, (k j).delivered.length ≤ messages)
    (hmembers : ∀ j, (e j).members.size ≤ members) : ∃ bound, ∀ j, work topic (k j) (e j) ≤ bound := by
  obtain ⟨limit, hlimit⟩ : ∃ limit, ∀ j, ∀ member ∈ (e j).members.toList,
      member.config.retryLimit ≤ limit :=
    ⟨maxRetryTimes, fun j member hm => ((h.steady j).members member hm).retryLimit_le⟩
  let bound := messages * (members + 1) ^ limit
  refine ⟨bound + (members * bound + members * bound), fun j => ?_⟩
  have hbound : (k j).delivered.length * ((e j).members.size + 1) ^ limit ≤ bound :=
    Nat.mul_le_mul (hmessages j) (Nat.pow_le_pow_left (Nat.succ_le_succ (hmembers j)) limit)
  obtain ⟨hhandlings, htakes⟩ := (h.feeding j).handlings_le (hlimit j)
  have htakes := Nat.le_trans htakes (Nat.mul_le_mul (hmembers j) hbound)
  exact Nat.add_le_add (Nat.le_trans ((h.feeding j).messages_le (hlimit j)) hbound)
    (Nat.add_le_add htakes (Nat.le_trans hhandlings htakes))

/-- When no work is added, no claim loop goes on. -/
theorem not_loop (h : Endless w topic k e t?) {j : Nat}
    (hsame : work topic (k (j + 1)) (e (j + 1)) = work topic (k j) (e j)) (i : Nat) :
    t? j ≠ some (.loop i) := by
  intro ht
  have hk := (h.work_grows j).2 hsame
  have hstep := h.step j
  rw [ht] at hstep
  rw [hk] at hstep hsame
  have hprogress : (e j).stepLoop? w i = some (e (j + 1)) → (e j).takes.length +
      (e j).handlings.size < (e (j + 1)).takes.length + (e (j + 1)).handlings.size := fun hloop =>
    Engine.progress_of_stepLoop? hloop (h.feeding j).service.sound
      fun l hl => (h.steady (j + 1)).not_isStopped hl
  simp only [work] at hsame
  generalize e (j + 1) = e' at hstep hsame hprogress
  cases hstep with
  | task _ hloop =>
    have := hprogress hloop
    omega

/-- When no work is added, handlings have no more to do than before, and less if one goes on. -/
theorem remaining_le (h : Endless w topic k e t?) {j : Nat}
    (hsame : work topic (k (j + 1)) (e (j + 1)) = work topic (k j) (e j)) :
    (e (j + 1)).remaining w ≤ (e j).remaining w ∧
      ∀ n, t? j = some (.handling n) → (e (j + 1)).remaining w < (e j).remaining w := by
  have hloop := h.not_loop hsame
  have hs := (h.feeding j).service.sound
  have hstep := h.step j
  generalize k (j + 1) = k', e (j + 1) = e', t? j = t at hstep hloop
  cases hstep with
  | task t ht =>
    cases t with
    | member m =>
      obtain ⟨member, b, loops, phase, news, -, -, hmv⟩ := Engine.stepMember?_inv ht
      exact ⟨Nat.le_of_eq (Engine.remaining_congr hmv.handlings_eq), nofun⟩
    | loop i => exact absurd rfl (hloop i)
    | handling n =>
      have hless := Engine.remaining_of_stepHandling? ht hs
      exact ⟨Nat.le_of_lt hless, fun _ _ => hless⟩
  | act a _ => exact ⟨Nat.le_of_eq (Engine.remaining_act a), nofun⟩
  | tick => exact ⟨Nat.le_refl _, nofun⟩

/-- **Quiet.**  If only so many messages come in from outside and there are only so many members, then
from some time on no message of the topic is admitted, and no claim loop and no handling goes on. -/
theorem becomes_quiet (h : Endless w topic k e t?) {messages members : Nat}
    (hmessages : ∀ j, (k j).delivered.length ≤ messages)
    (hmembers : ∀ j, (e j).members.size ≤ members) :
    ∃ j₀, ∀ j, j₀ ≤ j → k j = k j₀ ∧ (∀ i, t? j ≠ some (.loop i)) ∧
      ∀ n, t? j ≠ some (.handling n) := by
  obtain ⟨bound, hbound⟩ := h.work_le hmessages hmembers
  obtain ⟨j₁, hwork⟩ := exists_settled_of_le (f := fun j => work topic (k j) (e j))
    (fun j => (h.work_grows j).1) hbound
  have hsame : ∀ j, j₁ ≤ j → work topic (k (j + 1)) (e (j + 1)) = work topic (k j) (e j) :=
    fun j hj => (hwork _ (Nat.le_succ_of_le hj)).trans (hwork j hj).symm
  obtain ⟨j₀, hj₀, hremaining⟩ := exists_settled (f := fun j => (e j).remaining w) (j := j₁)
    fun j hj => (h.remaining_le (hsame j hj)).1
  refine ⟨j₀, fun j hj => ?_⟩
  have hj₁ := Nat.le_trans hj₀ hj
  refine ⟨?_, h.not_loop (hsame j hj₁), fun n hn => ?_⟩
  · induction j, hj using Nat.le_induction with
    | base => rfl
    | succ j hj ih =>
      have hj₁ := Nat.le_trans hj₀ hj
      exact ((h.work_grows j).2 (hsame j hj₁)).trans (ih hj₁)
  · have hless := (h.remaining_le (hsame j hj₁)).2 n hn
    have hsettled : (e (j + 1)).remaining w = (e j).remaining w :=
      (hremaining (j + 1) (Nat.le_succ_of_le hj)).trans (hremaining j hj).symm
    exact absurd hless (Nat.not_lt.2 (Nat.le_of_eq hsettled.symm))

end Endless

end ConsumerGroup
