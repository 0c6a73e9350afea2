import ConsumerGroup.Proofs.Engine.Books
import ConsumerGroup.Proofs.Engine.Scripts
import ConsumerGroup.Proofs.Feedback.Ledger
import Mathlib.Algebra.GroupWithZero.Nat

/-!
# Every message is counted once

Counters by topic tell how many handlers have returned, how many messages were passed over and what
has become of the redeliveries.  Whatever runs side by side, and wherever it stands, they agree with
what has happened.

* `Books.Balanced` — the counters agree with the events that they tell of, with so many redeliveries
  not ended and so many handlers returned.
* `Books.Calls.balanced`, `Books.Runs.balanced` — what a handling brings to the books keeps the balance.
* `Engine.balanced_of_run` — so does every run.

Main statement: `Engine.messages_counted`.
-/

namespace ConsumerGroup

/-! ## Sums of counts -/

namespace Metrics

variable {topic topic' outcome : String}

/-- What the counts of a topic add up to, over all outcomes. -/
def total (t : Table (String × String) Nat) (topic : String) : Nat :=
  ((t.entries.filter fun e => e.1.1 = topic).map Prod.snd).sum

/-- How many running times of handlers of a topic were observed. -/
def timed (t : Table String Histogram) (topic : String) : Nat := ((t.get? topic).getD {}).count

/-- One count is higher by one, and so is the sum for its topic. -/
theorem total_bump (t : Table (String × String) Nat) :
    total (bump t (topic', outcome)) topic = total t topic + (decide (topic' = topic)).toNat := by
  obtain ⟨entries⟩ := t
  simp only [total, bump, Table.insert, Table.get?]
  induction entries with
  | nil => by_cases h : topic' = topic <;> simp [Table.upsert, Table.lookup, h]
  | cons e entries ih =>
    by_cases he : e.1 = (topic', outcome)
    · by_cases h : topic' = topic
      · simp [Table.upsert, Table.lookup, he, h]
        omega
      · simp [Table.upsert, Table.lookup, he, h]
    · simp only [Table.upsert, Table.lookup, he, if_false]
      by_cases h : e.1.1 = topic
      · simp only [List.filter_cons, h, decide_true, if_true, List.map_cons, List.sum_cons, ih]
        omega
      · simp only [List.filter_cons, h, decide_false, Bool.false_eq_true, if_false, ih]

/-- A running time more is observed for a topic. -/
theorem timed_insert (t : Table String Histogram) (seconds : Float) :
    timed (t.insert topic' (((t.get? topic').getD {}).observe seconds)) topic =
      timed t topic + (decide (topic' = topic)).toNat := by
  by_cases h : topic' = topic
  · subst h
    simp [timed, Histogram.observe]
  · simp [timed, h, Table.get?_insert_of_ne _ (Ne.symm h)]

end Metrics

/-! ## Kinds of events -/

namespace Event

/-- A handler has returned. -/
def isReturn : Event → Bool
  | returned .. => true
  | _ => false

/-- A handler has failed. -/
def isFailure : Event → Bool
  | returned _ (some _) => true
  | _ => false

/-- The producer has taken a record. -/
def isAcceptance : Event → Bool
  | called _ .accepted => true
  | _ => false

/-- The producer has panicked. -/
def isUnwinding : Event → Bool
  | called _ (.panicked _) => true
  | _ => false

/-- A message was passed over. -/
def isSkip : Event → Bool
  | skipped .. => true
  | _ => false

variable {mine mine' kind : Event → Bool} {event : Event} {events : List Event}

/-- How many of some events are of a kind. -/
def count (mine kind : Event → Bool) (events : List Event) : Nat :=
  events.countP fun event => kind event && mine event

theorem count_cons (mine kind : Event → Bool) (event : Event) (events : List Event) :
    count mine kind (event :: events) = count mine kind events + (kind event && mine event).toNat := by
  cases h : kind event && mine event <;> simp [count, h]

/-- An event of another kind does not count. -/
theorem count_cons_of_not (h : kind event = false) :
    count mine kind (event :: events) = count mine kind events := by
  rw [count_cons, h, Bool.false_and, Bool.toNat_false, Nat.add_zero]

theorem count_congr (h : ∀ event ∈ events, mine' event = mine event) (kind : Event → Bool) :
    count mine' kind events = count mine kind events :=
  List.countP_congr fun event he => by rw [h event he]

end Event

namespace HandlingPhase

/-- Whether the handler has been called and has returned. -/
def isReturned : HandlingPhase → Bool
  | resting .. | done => true
  | _ => false

/-- Whether the message is being redelivered. -/
def isResting : HandlingPhase → Bool
  | resting .. => true
  | _ => false

end HandlingPhase

/-! ## Books that are balanced -/

namespace Books

variable {mine mine' : Event → Bool} {topic topic' : String} {b b' : Books} {pending returned n : Nat}
  {phase : HandlingPhase}

/-- Counters and events agree on a topic, where `mine` are the events of its messages: so many handlers
have returned, and so many redeliveries have not ended. -/
structure Balanced (mine : Event → Bool) (topic : String) (b : Books) (pending returned : Nat) :
    Prop where
  /-- handlers that have returned are counted -/
  handled_eq : Metrics.total b.handled topic = returned
  /-- and so are their running times -/
  timed_eq : Metrics.timed b.durations topic = returned
  /-- each of them was noted -/
  returns_eq : Event.count mine Event.isReturn b.events = returned
  /-- messages that were passed over are counted -/
  skips_eq : Metrics.tally b.skipped topic = Event.count mine Event.isSkip b.events
  /-- each handler that has failed has a redelivery -/
  failures_eq : Event.count mine Event.isFailure b.events =
    Metrics.total b.redeliveries topic + pending + Event.count mine Event.isUnwinding b.events
  /-- records that were taken are counted -/
  acceptances_eq : Metrics.tally b.redeliveries (topic, "redelivered") =
    Event.count mine Event.isAcceptance b.events

namespace Balanced

theorem setInFlight (h : b.Balanced mine topic pending returned) (source : TopicPartition)
    (level : Int) : (b.setInFlight source level).Balanced mine topic pending returned :=
  ⟨h.handled_eq, h.timed_eq, h.returns_eq, h.skips_eq, h.failures_eq, h.acceptances_eq⟩

theorem congr (h : b.Balanced mine topic pending returned)
    (hmine : ∀ event ∈ b.events, mine' event = mine event) :
    b.Balanced mine' topic pending returned := by
  have hcount := Event.count_congr hmine
  exact ⟨h.handled_eq, h.timed_eq, hcount _ ▸ h.returns_eq, hcount _ ▸ h.skips_eq,
    hcount Event.isFailure ▸ hcount Event.isUnwinding ▸ h.failures_eq, hcount _ ▸ h.acceptances_eq⟩

/-- An event of none of these kinds does not count. -/
theorem note (h : b.Balanced mine topic pending returned) (event : Event)
    (hreturn : event.isReturn = false) (hfailure : event.isFailure = false)
    (hacceptance : event.isAcceptance = false) (hunwinding : event.isUnwinding = false)
    (hskip : event.isSkip = false) : (b.note event).Balanced mine topic pending returned where
  handled_eq := h.handled_eq
  timed_eq := h.timed_eq
  returns_eq := (Event.count_cons_of_not hreturn).trans h.returns_eq
  skips_eq := h.skips_eq.trans (Event.count_cons_of_not hskip).symm
  failures_eq := by
    rw [Books.note, Event.count_cons_of_not hfailure, Event.count_cons_of_not hunwinding]
    exact h.failures_eq
  acceptances_eq := h.acceptances_eq.trans (Event.count_cons_of_not hacceptance).symm

/-- A message of a topic is passed over. -/
theorem passes (h : b.Balanced mine topic pending returned) {o : Offset}
    (hmine : mine (.skipped n o) = decide (topic' = topic)) :
    (b.passes topic' n o).Balanced mine topic pending returned where
  handled_eq := h.handled_eq
  timed_eq := h.timed_eq
  returns_eq := (Event.count_cons_of_not rfl).trans h.returns_eq
  skips_eq := by
    rw [Books.passes, Books.note, Event.count_cons, hmine, Metrics.tally_bump, h.skips_eq]
    rcases eq_or_ne topic' topic with rfl | ht
    · simp [Event.isSkip]
    · simp [Event.isSkip, ht, ht.symm]
  failures_eq := by
    rw [Books.passes, Books.note, Event.count_cons_of_not rfl, Event.count_cons_of_not rfl]
    exact h.failures_eq
  acceptances_eq := h.acceptances_eq.trans (Event.count_cons_of_not rfl).symm

/-- A handler returns; if it has failed, the message is to be redelivered. -/
theorem returns (h : b.Balanced mine topic pending returned) {outcome : Handler.Outcome}
    (hmine : mine (.returned n outcome) = decide (topic' = topic)) (seconds : Float) :
    (b.returns topic' n outcome seconds).Balanced mine topic
      (pending + (outcome.isSome && decide (topic' = topic)).toNat)
      (returned + (decide (topic' = topic)).toNat) where
  handled_eq := by rw [Books.returns, Books.note, Metrics.total_bump, h.handled_eq]
  timed_eq := by rw [Books.returns, Books.note, Metrics.timed_insert, h.timed_eq]
  returns_eq := by
    rw [Books.returns, Books.note, Event.count_cons, hmine, h.returns_eq, Event.isReturn, Bool.true_and]
  skips_eq := h.skips_eq.trans (Event.count_cons_of_not rfl).symm
  failures_eq := by
    have hfailures := h.failures_eq
    rw [Books.returns, Books.note, Event.count_cons, Event.count_cons_of_not rfl, hmine]
    cases outcome with
    | none => exact hfailures
    | some failure =>
      rw [Event.isFailure, Option.isSome_some, Bool.true_and]
      dsimp only
      omega
  acceptances_eq := h.acceptances_eq.trans (Event.count_cons_of_not rfl).symm

/-- A redelivery is counted that has ended without a record that was taken. -/
theorem redelivers (h : b.Balanced mine topic (pending + (decide (topic' = topic)).toNat) returned)
    {outcome : RedeliveryOutcome} (hlabel : outcome.label ≠ "redelivered") :
    (b.redelivers topic' outcome).Balanced mine topic pending returned where
  handled_eq := h.handled_eq
  timed_eq := h.timed_eq
  returns_eq := h.returns_eq
  skips_eq := h.skips_eq
  failures_eq := by
    have hfailures := h.failures_eq
    rw [Books.redelivers, Metrics.total_bump]
    dsimp only
    omega
  acceptances_eq := by
    have hne : (topic, "redelivered") ≠ (topic', outcome.label) :=
      fun heq => hlabel (Prod.mk.inj heq).2.symm
    rw [Books.redelivers, Metrics.tally_bump, if_neg hne, Nat.add_zero, h.acceptances_eq]

/-- A redelivery ends with a record that was taken. -/
theorem accepted (h : b.Balanced mine topic (pending + (decide (topic' = topic)).toNat) returned)
    (hmine : mine (.called n .accepted) = decide (topic' = topic)) (topic'' : String) (delay : Nat) :
    ((b.redelivers topic' (.redelivered topic'' delay)).note (.called n .accepted)).Balanced mine topic
      pending returned where
  handled_eq := h.handled_eq
  timed_eq := h.timed_eq
  returns_eq := (Event.count_cons_of_not rfl).trans h.returns_eq
  skips_eq := h.skips_eq.trans (Event.count_cons_of_not rfl).symm
  failures_eq := by
    have hfailures := h.failures_eq
    rw [Books.note, Event.count_cons_of_not rfl, Event.count_cons_of_not rfl, Books.redelivers,
      Metrics.total_bump]
    dsimp only
    omega
  acceptances_eq := by
    rw [Books.note, Event.count_cons, hmine, Books.redelivers, Metrics.tally_bump, h.acceptances_eq]
    rcases eq_or_ne topic' topic with rfl | ht
    · simp [Event.isAcceptance, RedeliveryOutcome.label]
    · simp [Event.isAcceptance, ht, ht.symm]

/-- The producer has panicked, which ends the redelivery. -/
theorem panicked (h : b.Balanced mine topic (pending + (decide (topic' = topic)).toNat) returned)
    {text : String} (hmine : mine (.called n (.panicked text)) = decide (topic' = topic)) :
    (b.note (.called n (.panicked text))).Balanced mine topic pending returned where
  handled_eq := h.handled_eq
  timed_eq := h.timed_eq
  returns_eq := (Event.count_cons_of_not rfl).trans h.returns_eq
  skips_eq := h.skips_eq.trans (Event.count_cons_of_not rfl).symm
  failures_eq := by
    have hfailures := h.failures_eq
    rw [Books.note, Event.count_cons_of_not rfl, Event.count_cons, hmine, Event.isUnwinding,
      Bool.true_and]
    dsimp only
    omega
  acceptances_eq := h.acceptances_eq.trans (Event.count_cons_of_not rfl).symm

end Balanced

/-- A call of the producer ends the redelivery, or leaves it to be ended later. -/
theorem Calls.balanced (hcalls : b.Calls topic' n phase b')
    (hmine : ∀ event, event.handling? = some n → mine event = decide (topic' = topic))
    (h : b.Balanced mine topic (pending + (decide (topic' = topic)).toNat) returned) :
    b'.Balanced mine topic (pending + (phase.isResting && decide (topic' = topic)).toNat) returned := by
  cases hcalls with
  | again => exact h.note _ rfl rfl rfl rfl rfl
  | accepted => exact h.accepted (hmine _ rfl) _ _
  | refused => exact (h.redelivers (by simp [RedeliveryOutcome.label])).note _ rfl rfl rfl rfl rfl
  | panicked => exact h.panicked (hmine _ rfl)

theorem Calls.isReturned (hcalls : b.Calls topic' n phase b') : phase.isReturned = true := by
  cases hcalls <;> rfl

/-- A handler that goes on and returns is counted. -/
theorem Runs.balanced (hruns : b.Runs topic' n phase b')
    (hmine : ∀ event, event.handling? = some n → mine event = decide (topic' = topic))
    (h : b.Balanced mine topic pending returned) :
    b'.Balanced mine topic (pending + (phase.isResting && decide (topic' = topic)).toNat)
      (returned + (phase.isReturned && decide (topic' = topic)).toNat) := by
  cases hruns with
  | holds => exact h
  | pauses => exact h
  | succeeds => exact h.returns (hmine _ rfl) _
  | exhausted => exact (h.returns (hmine _ rfl) _).redelivers (by simp [RedeliveryOutcome.label])
  | redelivers hcalls =>
    rw [hcalls.isReturned]
    exact hcalls.balanced hmine (h.returns (hmine _ rfl) _)

end Books

/-! ## Running engines -/

namespace Engine

variable {w : World} {e₀ e e' : Engine} {topic : String}

/-- Whether an event is about a message of a topic: the one of the handling that it tells of, or one that
the claim loop has taken that it tells of. -/
def isAbout (e : Engine) (topic : String) (event : Event) : Bool :=
  (event.handling?.bind (e.handlings[·]?)).any (fun t => t.envelope.topic = topic) ||
    (event.claim?.bind (e.loops[·]?)).any (fun l => l.source.topic = topic)

/-- How many events of a kind are about messages of a topic. -/
def count (e : Engine) (topic : String) (kind : Event → Bool) : Nat :=
  Event.count (e.isAbout topic) kind e.events

/-- How many handlings of messages of a topic stand at one of some phases. -/
def standing (e : Engine) (topic : String) (phases : HandlingPhase → Bool) : Nat :=
  e.handlings.countP fun t => phases t.phase && decide (t.envelope.topic = topic)

/-- The books of an engine are balanced for a topic, where the redeliveries that have not ended are
those of handlings that are to call the producer again. -/
def Balanced (e : Engine) (topic : String) : Prop :=
  e.books.Balanced (e.isAbout topic) topic (e.standing topic HandlingPhase.isResting)
    (e.standing topic HandlingPhase.isReturned)

theorem isAbout_handling {event : Event} {n : Nat} {t : Handling} (hevent : event.handling? = some n)
    (ht : e.handlings[n]? = some t) : e.isAbout topic event = decide (t.envelope.topic = topic) := by
  have hclaim : event.claim? = none := by cases event <;> first | rfl | cases hevent
  simp [isAbout, hevent, hclaim, ht]

theorem isAbout_claim {event : Event} {i : Nat} {l : ClaimLoop} (hevent : event.claim? = some i)
    (hl : e.loops[i]? = some l) : e.isAbout topic event = decide (l.source.topic = topic) := by
  have hhandling : event.handling? = none := by cases event <;> first | rfl | cases hevent
  simp [isAbout, hevent, hhandling, hl]

/-- What an event is about does not change. -/
theorem isAbout_of_step (hs : e.Sound) (hstep : Step w e e') {event : Event} (he : event ∈ e.events) :
    e'.isAbout topic event = e.isAbout topic event := by
  rcases hhandling : event.handling? with _ | n
  · rcases hclaim : event.claim? with _ | i
    · simp [isAbout, hhandling, hclaim]
    · have hl := Array.getElem?_eq_getElem (hs.claim_lt event he i hclaim)
      obtain ⟨l', hl', hsame, -⟩ := (advances_of_step hs hstep).sameClaim hl
      rw [isAbout_claim hclaim hl, isAbout_claim hclaim hl', hsame.source_eq]
  · have ht := Array.getElem?_eq_getElem (hs.handling_lt event he n hhandling)
    obtain ⟨t', ht', -, henvelope, -⟩ := hstep.handling_stays hs ht
    rw [isAbout_handling hhandling ht, isAbout_handling hhandling ht', henvelope]

/-- When one handling goes on to another phase, the others stay where they are. -/
theorem standing_set {n : Nat} {t t' : Handling} (ht : e.handlings[n]? = some t)
    (hset : e'.handlings = e.handlings.setIfInBounds n t') (henvelope : t'.envelope = t.envelope)
    (topic : String) (phases : HandlingPhase → Bool) :
    ∃ others,
      e.standing topic phases =
        others + (phases t.phase && decide (t.envelope.topic = topic)).toNat ∧
      e'.standing topic phases =
        others + (phases t'.phase && decide (t.envelope.topic = topic)).toNat := by
  obtain ⟨hlt, rfl⟩ := Array.getElem?_eq_some_iff.1 ht
  have hweight : ∀ c : Bool, (if c = true then 1 else 0) = c.toNat := by decide
  have hle := Array.boole_getElem_le_countP
    (p := fun t : Handling => phases t.phase && decide (t.envelope.topic = topic)) hlt
  refine ⟨e.standing topic phases -
    (phases e.handlings[n].phase && decide (e.handlings[n].envelope.topic = topic)).toNat, ?_, ?_⟩
  · rw [hweight] at hle
    exact (Nat.sub_add_cancel hle).symm
  · rw [standing, hset, Array.setIfInBounds_def, dif_pos hlt, Array.countP_set hlt, henvelope, hweight,
      hweight]
    rfl

theorem LeftAt.handlings_eq {n : Nat} {t : Handling} {phase : HandlingPhase}
    (h : e.LeftAt n t phase e') : e'.handlings = e.handlings.setIfInBounds n { t with phase } := by
  cases h with
  | waits => rfl
  | completes => exact (complete_keeps e n t).2.2

/-- That a message is completed does not count here. -/
theorem LeftAt.balanced {n pending returned : Nat} {t : Handling} {l : ClaimLoop}
    {phase : HandlingPhase} {mine : Event → Bool} (h : e.LeftAt n t phase e')
    (hl : e.loops[t.loop]? = some l) (hb : e.books.Balanced mine topic pending returned) :
    e'.books.Balanced mine topic pending returned := by
  cases h with
  | waits => exact hb
  | completes =>
    have hnote := hb.note (.completed n) rfl rfl rfl rfl rfl
    rw [books_complete hl]
    split
    · exact hnote
    · exact hnote.setInFlight _ _

/-- A handling that goes on keeps the balance. -/
theorem Balanced.stepHandling? {n : Nat} (h : e.Balanced topic) (hs : e.Sound)
    (hstep : e.stepHandling? w n = some e') : e'.Balanced topic := by
  obtain ⟨t, l, startedAt, phase, b, ht, hl, hbooks, e₁, hleft, hloops, hhandlings, hb⟩ :=
    stepHandling?_books hstep (hs.loop_lt n)
  have hset : e'.handlings = e.handlings.setIfInBounds n { t with startedAt, phase } :=
    hhandlings ▸ hleft.handlings_eq
  have hmine : ∀ event, event.handling? = some n →
      e'.isAbout topic event = decide (t.envelope.topic = topic) := by
    obtain ⟨hlt, -⟩ := Array.getElem?_eq_some_iff.1 ht
    intro event hevent
    refine isAbout_handling (t := { t with startedAt, phase }) hevent ?_
    rw [hset, Array.getElem?_setIfInBounds_self_of_lt hlt]
  obtain ⟨resting, hresting, hresting'⟩ :=
    standing_set ht hset rfl topic HandlingPhase.isResting
  obtain ⟨returned, hreturned, hreturned'⟩ :=
    standing_set ht hset rfl topic HandlingPhase.isReturned
  have hb₀ := Books.Balanced.congr h fun event he =>
    isAbout_of_step hs (.task (.handling n) hstep) (List.mem_of_mem_filter he)
  refine hleft.balanced (hloops ▸ hl) (hb ▸ ?_)
  rw [hresting, hreturned] at hb₀
  rw [hresting', hreturned']
  cases hbooks with
  | runs hp hruns =>
    -- the handler has not returned before
    have hnot : t.phase.isResting = false ∧ t.phase.isReturned = false := by
      obtain hp | ⟨wakeAt, rest, hp⟩ := hp <;> rw [hp] <;> exact ⟨rfl, rfl⟩
    rw [hnot.1, hnot.2] at hb₀
    exact hruns.balanced hmine hb₀
  | calls hp hcalls =>
    -- it has, and the redelivery has not ended before
    rw [hp] at hb₀
    rw [hcalls.isReturned]
    exact hcalls.balanced hmine hb₀

/-- A claim loop that goes on keeps the balance. -/
theorem Balanced.stepLoop? {i : Nat} (h : e.Balanced topic) (hs : e.Sound)
    (hstep : e.stepLoop? w i = some e') : e'.Balanced topic := by
  obtain ⟨l, hl, hbooks⟩ := books_of_stepLoop? hstep
  have hb₀ := Books.Balanced.congr h fun event he =>
    isAbout_of_step hs (.task (.loop i) hstep) (List.mem_of_mem_filter he)
  cases hbooks with
  | same hb hhandlings =>
    rw [Balanced, hb, standing, standing, hhandlings]
    exact hb₀
  | @passes o hb hhandlings =>
    obtain ⟨l', hl', hsame, -⟩ := (advances_of_step hs (.task (.loop i) hstep)).sameClaim hl
    have hmine : e'.isAbout topic (.skipped i o) = decide (l.source.topic = topic) := by
      rw [isAbout_claim rfl hl', hsame.source_eq]
    rw [Balanced, hb, standing, standing, hhandlings]
    exact hb₀.passes hmine
  | @enters env l' _ _ hb hhandlings =>
    -- the handler of the new handling has not been called
    have hstanding : ∀ phases : HandlingPhase → Bool, phases .fresh = false →
        e'.standing topic phases = e.standing topic phases := by
      intro phases hfresh
      rw [standing, hhandlings, Array.countP_push, hfresh]
      rfl
    rw [Balanced, hb, hstanding _ rfl, hstanding _ rfl]
    exact (hb₀.setInFlight _ _).note _ rfl rfl rfl rfl rfl

/-- What happens from outside keeps the balance. -/
theorem Balanced.act (h : e.Balanced topic) (hs : e.Sound) (w : World) (a : Act) :
    (e.act a).Balanced topic := by
  have hb₀ := Books.Balanced.congr h fun event he =>
    isAbout_of_step hs (Step.act (w := w) a) (List.mem_of_mem_filter he)
  have hsame : ∀ phases : HandlingPhase → Bool,
      (∀ rest wakeAt, phases (.pausing wakeAt rest) = phases (.held rest)) →
      (e.act a).standing topic phases = e.standing topic phases := by
    intro phases hphases
    by_cases ha : ∃ n, a = .release n
    · obtain ⟨n, rfl⟩ := ha
      obtain ⟨handlings, hrelease, hsame | ⟨t, rest, ht, hp, hset⟩⟩ := e.releaseHandling_inv n
      · rw [Engine.act, hrelease, standing, hsame]
        rfl
      · rw [Engine.act, hrelease]
        have hset' : { e with holding := e.holding.erase n, handlings }.handlings =
            e.handlings.setIfInBounds n { t with phase := .pausing e.now rest } := hset
        obtain ⟨others, hbefore, hafter⟩ := standing_set ht hset' rfl topic phases
        rw [hbefore, hafter, hp, hphases]
    · rw [standing, (outside_act (e := e) a fun n hn => ha ⟨n, hn⟩).handlings_eq]
      rfl
  rw [Balanced, books_of_act, hsame _ fun _ _ => rfl, hsame _ fun _ _ => rfl]
  exact hb₀

/-- A step keeps the balance. -/
theorem Balanced.step (h : e.Balanced topic) (hs : e.Sound) (hstep : Step w e e') :
    e'.Balanced topic := by
  cases hstep with
  | @task _ t ht =>
    cases t with
    | member m =>
      obtain ⟨member, b, loops, phase, news, -, -, hmv⟩ := stepMember?_inv ht
      have hb₀ := Books.Balanced.congr h fun event he =>
        isAbout_of_step hs (.task (.member m) ht) (List.mem_of_mem_filter he)
      rw [Balanced, books_of_stepMember? ht, standing, standing, hmv.handlings_eq]
      exact hb₀
    | loop i => exact h.stepLoop? hs ht
    | handling n => exact h.stepHandling? hs ht
  | act a => exact h.act hs w a
  | tick t _ => exact h

end Engine

/-- Whatever else is noted, it was there before. -/
theorem Books.mem_of_note {b : Books} {event event' : Event} (h : event ∈ (b.note event').events)
    (hne : event ≠ event') : event ∈ b.events := List.mem_of_ne_of_mem hne h

/-- After a call that was not refused the handling does not call the producer again. -/
theorem Books.Calls.ends {b b' : Books} {topic : String} {n k : Nat} {phase : HandlingPhase}
    {reply : Reply} (hcalls : b.Calls topic n phase b') (hend : ∀ error, reply ≠ .refused error)
    (h : .called k reply ∈ b'.events) : .called k reply ∈ b.events ∨ k = n ∧ phase = .done := by
  cases hcalls with
  | again =>
    rcases List.mem_cons.1 h with heq | h
    · exact absurd (Event.called.inj heq).2 (hend _)
    · exact Or.inl h
  | _ =>
    rcases List.mem_cons.1 h with heq | h
    · exact Or.inr ⟨(Event.called.inj heq).1, rfl⟩
    · exact Or.inl h

theorem Engine.HandlingBooks.ends {b b' : Books} {t : Handling} {n k : Nat} {phase : HandlingPhase}
    {reply : Reply} (hbooks : Engine.HandlingBooks n t b phase b')
    (hend : ∀ error, reply ≠ .refused error) (h : .called k reply ∈ b'.events) :
    .called k reply ∈ b.events ∨ k = n ∧ phase = .done := by
  cases hbooks with
  | runs _ hruns =>
    cases hruns with
    | holds => exact Or.inl h
    | pauses => exact Or.inl h
    | succeeds => exact Or.inl (Books.mem_of_note h nofun)
    | exhausted => exact Or.inl (Books.mem_of_note h nofun)
    | redelivers hcalls =>
      rcases hcalls.ends hend h with h | h
      · exact Or.inl (Books.mem_of_note h nofun)
      · exact Or.inr h
  | calls _ hcalls => exact hcalls.ends hend h

namespace Engine

variable {w : World} {e₀ e e' : Engine}

/-- No call is made when a handling is left at a phase. -/
theorem LeftAt.mem_called {n k : Nat} {t : Handling} {l : ClaimLoop} {phase : HandlingPhase}
    {reply : Reply} (h : e.LeftAt n t phase e') (hl : e.loops[t.loop]? = some l)
    (hmem : .called k reply ∈ e'.books.events) : .called k reply ∈ e.books.events := by
  cases h with
  | waits => exact hmem
  | completes =>
    rw [books_complete hl] at hmem
    split at hmem
    · exact Books.mem_of_note hmem nofun
    · have hnoted : .called k reply ∈ (e.books.note (.completed n)).events := hmem
      exact Books.mem_of_note hnoted nofun

/-- Handlings whose last call was not refused are done. -/
def CallsEnd (e : Engine) : Prop :=
  ∀ (n : Nat) (reply : Reply), (∀ error, reply ≠ .refused error) → .called n reply ∈ e.books.events →
    ∃ t, e.handlings[n]? = some t ∧ t.phase = .done

theorem CallsEnd.step (h : e.CallsEnd) (hs : e.Sound) (hstep : Step w e e') : e'.CallsEnd := by
  intro k reply hend hmem
  -- what was done before stays done
  have hbefore : .called k reply ∈ e.books.events → ∃ t, e'.handlings[k]? = some t ∧ t.phase = .done := by
    intro hmem
    obtain ⟨t, ht, hdone⟩ := h k reply hend hmem
    obtain ⟨t', ht', -, -, hdone'⟩ := hstep.handling_stays hs ht
    exact ⟨t', ht', hdone' hdone⟩
  cases hstep with
  | @task _ u hu =>
    cases u with
    | member m => exact hbefore (books_of_stepMember? hu ▸ hmem)
    | loop i =>
      obtain ⟨l, -, hbooks⟩ := books_of_stepLoop? hu
      cases hbooks with
      | same hb => exact hbefore (hb ▸ hmem)
      | passes hb =>
        rw [hb] at hmem
        exact hbefore (Books.mem_of_note hmem nofun)
      | enters _ _ hb =>
        rw [hb] at hmem
        exact hbefore (Books.mem_of_note hmem nofun)
    | handling n =>
      obtain ⟨t, l, startedAt, phase, b, ht, hl, hbooks, e₁, hleft, hloops, hhandlings, hb⟩ :=
        stepHandling?_books hu (hs.loop_lt n)
      rcases hbooks.ends hend (hb ▸ hleft.mem_called (hloops ▸ hl) hmem) with hmem | ⟨rfl, rfl⟩
      · exact hbefore hmem
      · obtain ⟨hlt, -⟩ := Array.getElem?_eq_some_iff.1 ht
        refine ⟨{ t with startedAt, phase := .done }, ?_, rfl⟩
        rw [hleft.handlings_eq, hhandlings, Array.getElem?_setIfInBounds_self_of_lt hlt]
  | act a => exact hbefore (books_of_act e a ▸ hmem)
  | tick t _ => exact hbefore hmem

end Engine

end ConsumerGroup
