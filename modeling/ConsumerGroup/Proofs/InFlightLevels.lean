import ConsumerGroup.Proofs.Engine.Books
import ConsumerGroup.Proofs.Engine.Scripts
import ConsumerGroup.Proofs.Feedback.Ledger
import Mathlib.Data.List.Induction

/-!
# What a level tells

The number of messages of a partition that are in flight is published as a level.  Each claim loop counts
its own messages, and several may be for the same partition: those of other groups, and those of sessions
that have ended while handlers were busy.  Each of them overwrites the level of the partition with its own
count, so that the level tells what the one has in flight that has changed last.

Main statements: `Engine.level_of_last_mover` says so, and that the level is all there is in flight of the
partition just when nobody else has anything; `Engine.level_not_total` is a run in which somebody has.
-/

namespace ConsumerGroup.Engine

variable {w : World} {e₀ e e' : Engine} {source : TopicPartition} {i : Nat}

/-! ## What is in flight -/

/-- How many messages of a partition have a handling that is not done. -/
def inFlightOn (e : Engine) (source : TopicPartition) : Nat :=
  e.handlings.countP fun t => t.phase ≠ .done && t.envelope.source = source

/-- How many of them are those of claim loop number `i`. -/
def inFlightIn (e : Engine) (i : Nat) : Nat :=
  e.handlings.countP fun t => t.phase ≠ .done && t.loop = i

/-- How many messages claim loop number `i` counts as in flight. -/
def trackedBy (e : Engine) (i : Nat) : Nat := ((e.loops[i]?).map (·.tracker.count)).getD 0

/-- Whether claim loop number `i` is for a partition. -/
def isOn (e : Engine) (source : TopicPartition) (i : Nat) : Bool :=
  (e.loops[i]?).any fun l => l.source = source

/-- The claim loop for which a message gets in flight or is completed, if an event tells of that. -/
def mover? (e : Engine) : Event → Option Nat
  | .entered i _ _ => some i
  | .completed n => (e.handlings[n]?).map Handling.loop
  | _ => none

/-- The claim loop for a partition of which some events tell first that a message gets in flight or is
completed. -/
def firstMover? (e : Engine) (source : TopicPartition) (events : List Event) : Option Nat :=
  events.findSome? fun event => (e.mover? event).filter (e.isOn source)

/-- The claim loop for a partition that has taken up or completed a message last. -/
def lastMover? (e : Engine) (source : TopicPartition) : Option Nat := e.firstMover? source e.events

/-! ## Levels follow the last mover -/

theorem firstMover?_cons (e : Engine) (source : TopicPartition) (event : Event) (events : List Event) :
    e.firstMover? source (event :: events) =
      ((e.mover? event).filter (e.isOn source)).or (e.firstMover? source events) := by
  rw [firstMover?, List.findSome?_cons]
  cases (e.mover? event).filter (e.isOn source) <;> rfl

/-- The books tell of all movers. -/
theorem firstMover?_books (e : Engine) (source : TopicPartition) (events : List Event) :
    e.firstMover? source (events.filter Event.isCounted) = e.firstMover? source events := by
  induction events with
  | nil => rfl
  | cons event events ih =>
    rw [firstMover?_cons, ← ih]
    cases hc : event.isCounted with
    | true => rw [List.filter_cons_of_pos hc, firstMover?_cons]
    | false =>
      have hnone : e.mover? event = none := by cases event <;> first | rfl | cases hc
      rw [List.filter_cons_of_neg (by simp [hc]), hnone]
      rfl

/-- The level of a partition is the count of the claim loop that has moved last. -/
def Levelled (source : TopicPartition) (e : Engine) : Prop :=
  e.books.inFlight.get? source =
    (e.firstMover? source e.books.events).map fun i => (e.trackedBy i : Int)

theorem exists_of_firstMover? {events : List Event} (h : e.firstMover? source events = some i) :
    ∃ l, e.loops[i]? = some l ∧ l.source = source := by
  obtain ⟨event, -, hevent⟩ := List.exists_of_findSome?_eq_some h
  have hon := (Option.filter_eq_some_iff.1 hevent).2
  rw [isOn, Option.any_eq_true] at hon
  obtain ⟨l, hl, hsource⟩ := hon
  exact ⟨l, hl, of_decide_eq_true hsource⟩

theorem isOn_of_loop {l : ClaimLoop} (hl : e.loops[i]? = some l) :
    e.isOn source i = decide (l.source = source) := by
  rw [isOn, hl, Option.any_some]

theorem trackedBy_of_loop {l : ClaimLoop} (hl : e.loops[i]? = some l) :
    e.trackedBy i = l.tracker.count := by
  rw [trackedBy, hl, Option.map_some, Option.getD_some]

/-- Who has moved, and for which partition, stays the same. -/
theorem firstMover?_of_step (hs : e.Sound) (hstep : Step w e e') (source : TopicPartition) :
    e'.firstMover? source e.books.events = e.firstMover? source e.books.events := by
  have hadv := advances_of_step hs hstep
  have hon : ∀ i < e.loops.size, e'.isOn source i = e.isOn source i := by
    intro i hi
    have hl := Array.getElem?_eq_getElem hi
    obtain ⟨l', hl', hsame, -⟩ := hadv.sameClaim hl
    rw [isOn_of_loop hl, isOn_of_loop hl', hsame.source_eq]
  have hevent : ∀ event ∈ e.events, (e'.mover? event).filter (e'.isOn source) =
      (e.mover? event).filter (e.isOn source) := by
    intro event he
    cases event with
    | entered i o n =>
      have hi := hon i (hs.claim_lt _ he i rfl)
      simp only [mover?, Option.filter_some, hi]
    | completed n =>
      have ht := Array.getElem?_eq_getElem (hs.handling_lt _ he n rfl)
      obtain ⟨t', ht', hloop, -, -⟩ := hstep.handling_stays hs ht
      have hi := hon _ (hs.loop_lt n _ ht)
      simp only [mover?, ht, ht', Option.map_some, hloop, Option.filter_some, hi]
    | _ => rfl
  have hall : ∀ events : List Event, events ⊆ e.events →
      e'.firstMover? source events = e.firstMover? source events := by
    intro events
    induction events with
    | nil => exact fun _ => rfl
    | cons event events ih =>
      intro hsub
      rw [firstMover?_cons, firstMover?_cons, hevent event (hsub List.mem_cons_self),
        ih fun event he => hsub (List.mem_cons_of_mem _ he)]
  exact hall _ fun event he => List.mem_of_mem_filter he

/-- Nobody moves. -/
theorem Levelled.keeps (h : e.Levelled source) (hs : e.Sound) (hstep : Step w e e')
    (hlevel : e'.books.inFlight = e.books.inFlight)
    (hfirst : e'.firstMover? source e'.books.events = e'.firstMover? source e.books.events)
    (htracked : ∀ i < e.loops.size, e'.trackedBy i = e.trackedBy i) : e'.Levelled source := by
  rw [Levelled, hlevel, hfirst, firstMover?_of_step hs hstep, h]
  rcases hi : e.firstMover? source e.books.events with _ | i
  · rfl
  · obtain ⟨l, hl, -⟩ := exists_of_firstMover? hi
    rw [Option.map_some, Option.map_some, htracked i (Array.getElem?_eq_some_iff.1 hl).1]

/-- A claim loop moves, and the level of its partition becomes its count. -/
theorem Levelled.moves {l' : ClaimLoop} {event : Event} {events : List Event} (h : e.Levelled source)
    (hs : e.Sound) (hstep : Step w e e') (hl' : e'.loops[i]? = some l')
    (hlevel : e'.books.inFlight = e.books.inFlight.insert l'.source l'.tracker.count)
    (hevents : e'.books.events = event :: events) (hmover : e'.mover? event = some i)
    (hfirst : e'.firstMover? source events = e'.firstMover? source e.books.events)
    (hothers : ∀ j, j ≠ i → e'.trackedBy j = e.trackedBy j) : e'.Levelled source := by
  rw [Levelled, hlevel, hevents, firstMover?_cons, hmover, hfirst, firstMover?_of_step hs hstep]
  by_cases hsource : l'.source = source
  · rw [Option.filter_some, isOn_of_loop hl', if_pos (decide_eq_true hsource), Option.some_or,
      Option.map_some, hsource, Table.get?_insert_self, trackedBy_of_loop hl']
  · rw [Option.filter_some, isOn_of_loop hl', decide_eq_false hsource, if_neg Bool.false_ne_true,
      Option.none_or, Table.get?_insert_of_ne _ (Ne.symm hsource), h]
    rcases hj : e.firstMover? source e.books.events with _ | j
    · rfl
    · -- the one that has moved last is for another partition than the one that moves now
      obtain ⟨l, hl, hon⟩ := exists_of_firstMover? hj
      have hne : j ≠ i := by
        rintro rfl
        obtain ⟨l'', hl'', hsame, -⟩ := (advances_of_step hs hstep).sameClaim hl
        obtain rfl := Option.some.inj (hl'.symm.trans hl'')
        exact hsource (hsame.source_eq.trans hon)
      rw [Option.map_some, Option.map_some, hothers j hne]

/-! ## Steps -/

/-- Only one claim loop changes. -/
theorem trackedBy_of_set {l l' : ClaimLoop} (hl : e.loops[i]? = some l)
    (hloops : e'.loops = e.loops.setIfInBounds i l') (j : Nat) :
    e'.trackedBy j = if j = i then l'.tracker.count else e.trackedBy j := by
  rw [trackedBy, getElem?_set_loop hl hloops]
  split
  · rfl
  · rfl

theorem Levelled.stepLoop? (h : e.Levelled source) (hs : e.Sound) (hstep : e.stepLoop? w i = some e') :
    e'.Levelled source := by
  obtain ⟨l, hl, hbooks⟩ := books_of_stepLoop? hstep
  obtain ⟨l₁, l', queue, env?, news, hl₁, hloop, hgoes⟩ :=
    stepLoop?_inv hstep (hs.fits i) fun l hl => hs.channel_lt hl
  obtain rfl := Option.some.inj (hl.symm.trans hl₁)
  have htask : Step w e e' := .task (.loop i) hstep
  -- without a new handling the tracker keeps its messages
  have htracked : e'.handlings = e.handlings → ∀ j < e.loops.size, e'.trackedBy j = e.trackedBy j := by
    intro hhandlings j _
    rw [trackedBy_of_set hl hgoes.loops_eq]
    split
    · rename_i hj
      rw [hj, trackedBy_of_loop hl]
      rcases hloop.tracker_eq with ⟨env, henv, -⟩ | ⟨-, heq | ⟨o, heq⟩⟩
      · have hsize := congrArg Array.size (hgoes.handlings_eq.symm.trans hhandlings)
        rw [henv, Array.size_push] at hsize
        omega
      · rw [heq]
      · rw [heq, Tracker.count_eq, Tracker.inFlight_skip, ← Tracker.count_eq]
    · rfl
  cases hbooks with
  | same hb hhandlings => exact h.keeps hs htask (by rw [hb]) (by rw [hb]) (htracked hhandlings)
  | passes hb hhandlings =>
    exact h.keeps hs htask (by rw [hb]; rfl) (by rw [hb]; rfl) (htracked hhandlings)
  | @enters env l'' htracker hloops hb hhandlings =>
    have hl'' : e'.loops[i]? = some l'' := by
      rw [getElem?_set_loop hl hloops, if_pos rfl]
    obtain ⟨l₂, hl₂, hsame, -⟩ := (advances_of_step hs htask).sameClaim hl
    obtain rfl := Option.some.inj (hl''.symm.trans hl₂)
    refine h.moves hs htask hl'' ?_ (by rw [hb]; rfl) rfl rfl fun j hj => ?_
    · rw [hb, hsame.source_eq]
      rfl
    · rw [trackedBy_of_set hl hloops, if_neg hj]

theorem HandlingBooks.not_done {n : Nat} {t : Handling} {b b' : Books} {phase : HandlingPhase}
    (h : HandlingBooks n t b phase b') : t.phase ≠ .done := by
  cases h with
  | runs hp =>
    obtain hp | ⟨wakeAt, rest, hp⟩ := hp
    · simp [hp]
    · simp [hp]
  | calls hp => simp [hp]

/-- What a handling brings to the books before it is left tells of no mover and changes no level. -/
theorem HandlingBooks.quiet {n : Nat} {t : Handling} {b b' : Books} {phase : HandlingPhase}
    (h : HandlingBooks n t b phase b') (e : Engine) (source : TopicPartition) :
    b'.inFlight = b.inFlight ∧ e.firstMover? source b'.events = e.firstMover? source b.events := by
  have hcalls : ∀ {b : Books}, b.Calls t.envelope.topic n phase b' →
      b'.inFlight = b.inFlight ∧ e.firstMover? source b'.events = e.firstMover? source b.events := by
    intro b hcalls
    cases hcalls <;> exact ⟨rfl, rfl⟩
  cases h with
  | runs _ hruns =>
    cases hruns with
    | redelivers hc =>
      have hquiet := hcalls hc
      exact hquiet
    | _ => exact ⟨rfl, rfl⟩
  | calls _ hc => exact hcalls hc

/-- A message is completed that the tracker of its claim loop holds, if that is for the partition. -/
theorem Levelled.completes {e₁ : Engine} {n : Nat} {t : Handling} {l : ClaimLoop}
    (h : e.Levelled source) (hs : e.Sound) (hstep : Step w e (e₁.complete n t))
    (hl : e.loops[t.loop]? = some l) (hloops : e₁.loops = e.loops)
    (hlevel : e₁.books.inFlight = e.books.inFlight)
    (hfirst : (e₁.complete n t).firstMover? source e₁.books.events =
      (e₁.complete n t).firstMover? source e.books.events)
    (hmover : (e₁.complete n t).mover? (.completed n) = some t.loop)
    (htracked : l.source = source → t.envelope.offset ∈ l.tracker.inFlight.keys) :
    (e₁.complete n t).Levelled source := by
  have hl₁ : e₁.loops[t.loop]? = some l := hloops ▸ hl
  obtain ⟨l', hloops', hsource', htracker'⟩ := loops_complete (n := n) hl₁
  have hbooks := books_complete (n := n) hl₁
  rw [hloops] at hloops'
  have hl' := getElem?_set_loop hl hloops' t.loop
  rw [if_pos rfl] at hl'
  have hothers := trackedBy_of_set hl hloops'
  rcases hc : l.tracker.complete t.envelope.offset with _ | ⟨c, tracker⟩
  · -- another message with that offset was completed before, so the claim is for another partition
    rw [hc] at htracker' hbooks
    have hother : l.source ≠ source := fun heq => Tracker.complete_eq_none_iff.1 hc (htracked heq)
    refine h.keeps hs hstep ?_ ?_ fun j _ => ?_
    · rw [hbooks, ← hlevel]
      rfl
    · rw [hbooks, ← hfirst, Books.note, firstMover?_cons, hmover, Option.filter_some,
        isOn_of_loop hl', hsource', if_neg (by simp [hother]), Option.none_or]
    · rw [hothers, htracker']
      split
      · rename_i hj
        rw [hj, trackedBy_of_loop hl]
      · rfl
  · rw [hc] at htracker' hbooks
    refine h.moves hs hstep hl' ?_ (by rw [hbooks]; rfl) hmover hfirst fun j hj => ?_
    · rw [hbooks, htracker', hsource', ← hlevel]
      rfl
    · rw [hothers, if_neg hj]

theorem Levelled.stepHandling? {n : Nat} (h : e.Levelled source) (hs : e.Sound)
    (htracked : ∀ (t : Handling) (l : ClaimLoop), e.handlings[n]? = some t →
      e.loops[t.loop]? = some l → l.source = source → t.phase ≠ .done →
        t.envelope.offset ∈ l.tracker.inFlight.keys)
    (hstep : e.stepHandling? w n = some e') : e'.Levelled source := by
  obtain ⟨t, l, startedAt, phase, b, ht, hl, hbooks, e₁, hleft, hloops, hhandlings, rfl⟩ :=
    stepHandling?_books hstep (hs.loop_lt n)
  have htask : Step w e e' := .task (.handling n) hstep
  obtain ⟨hlevel, hfirst⟩ := hbooks.quiet e' source
  cases hleft with
  | waits =>
    refine h.keeps hs htask hlevel hfirst fun j _ => ?_
    rw [trackedBy, trackedBy, ← hloops]
    rfl
  | completes =>
    obtain ⟨t', ht', hloop, -, -⟩ := htask.handling_stays hs ht
    refine h.completes hs htask hl hloops hlevel hfirst ?_ fun heq =>
      htracked t l ht hl heq hbooks.not_done
    rw [mover?, ht', Option.map_some, hloop]

theorem trackedBy_of_outside (ho : e.Outside e') (j : Nat) : e'.trackedBy j = e.trackedBy j := by
  obtain ⟨f, hloops, htold⟩ := ho.told
  rw [trackedBy, trackedBy, hloops, Array.getElem?_map]
  rcases e.loops[j]? with _ | l
  · rfl
  · rw [Option.map_some, Option.map_some, Option.map_some, (htold l).eq]

theorem Levelled.stepMember? {m : Nat} (h : e.Levelled source) (hs : e.Sound) (w : World)
    (hstep : e.stepMember? m = some e') : e'.Levelled source := by
  have hb := books_of_stepMember? hstep
  refine h.keeps hs (.task (w := w) (.member m) hstep) (by rw [hb]) (by rw [hb]) fun i hi => ?_
  obtain ⟨member, b, loops, phase, news, hm, hmember, hmv⟩ := stepMember?_inv hstep
  by_cases hsize : loops.size = e.loops.size
  · exact trackedBy_of_outside (hmember.outside hmv hm hsize) i
  · cases hmember with
    | claims =>
      -- the claim that is handed out gets a number of its own
      rw [trackedBy, trackedBy, hmv.loops_eq, Array.getElem?_push, if_neg (Nat.ne_of_lt hi)]
    | ends => simp [modifyLoopsOf] at hsize
    | stops => simp [modifyLoopsOf] at hsize
    | _ => exact absurd rfl hsize

theorem Levelled.act (h : e.Levelled source) (hs : e.Sound) (w : World) (a : Act) :
    (e.act a).Levelled source := by
  have hb := books_of_act e a
  refine h.keeps hs (.act (w := w) a) (by rw [hb]) (by rw [hb]) fun i _ => ?_
  by_cases ha : ∃ n, a = .release n
  · obtain ⟨n, rfl⟩ := ha
    obtain ⟨handlings, hrelease, -⟩ := e.releaseHandling_inv n
    rw [Engine.act, hrelease, trackedBy]
    rfl
  · exact trackedBy_of_outside (outside_act a fun n hn => ha ⟨n, hn⟩) i

/-! ## Runs -/

/-- The offsets of the messages that the claims for a partition have taken are different. -/
def TakesOnce (source : TopicPartition) (e : Engine) : Prop :=
  ∀ (i : Nat) (l : ClaimLoop), e.loops[i]? = some l → l.source = source →
    ((e.view i l).taken i).Nodup

theorem TakesOnce.before (h : e'.TakesOnce source) (hs : e.Sound) (hstep : Step w e e') :
    e.TakesOnce source := by
  intro i l hl hsource
  obtain ⟨l', hl', hsame, hsuffix⟩ := (advances_of_step hs hstep).sameClaim hl
  exact (h i l' hl' (hsame.source_eq.trans hsource)).sublist (hsuffix.filterMap _).sublist

/-- **Levels.**  As long as the claims for a partition take no offset twice, the level of the partition is
the count of the claim loop that has moved last. -/
theorem levelled_of_run (h₀ : e₀.IsFresh) (hm : e₀.metrics.inFlight = ∅) (hrun : Run w e₀ e)
    (honce : e.TakesOnce source) : e.Levelled source := by
  induction hrun with
  | refl =>
    rw [Levelled, books, events, h₀.journal_eq, hm]
    rfl
  | tail hrun hstep ih =>
    have hs := sound_of_run h₀.sound hrun
    have honce₀ := honce.before hs hstep
    have h := ih honce₀
    cases hstep with
    | @task _ u hu =>
      cases u with
      | member m => exact h.stepMember? hs w hu
      | loop i => exact h.stepLoop? hs hu
      | handling n =>
        refine h.stepHandling? hs ?_ hu
        intro t l ht hl hsource hphase
        have htracked := (reachable_of_run h₀ hrun hl).tracked (honce₀ t.loop l hl hsource)
        exact (htracked _).2 ⟨n, t, handlingOf?_eq_some.2 ⟨ht, rfl⟩, hphase, rfl⟩
    | act a => exact h.act hs w a
    | tick t _ => exact h

/-! ## Counts of handlings -/

theorem length_filter_range {α : Type} (xs : List α) (p : α → Bool) :
    ((List.range xs.length).filter fun n => (xs[n]?).any p).length = xs.countP p := by
  induction xs using List.reverseRecOn with
  | nil => rfl
  | append_singleton xs x ih =>
    have hbefore : ∀ n ∈ List.range xs.length, ((xs ++ [x])[n]?).any p = (xs[n]?).any p := by
      intro n hn
      rw [List.getElem?_append_left (List.mem_range.1 hn)]
    rw [List.length_append, List.length_singleton, List.range_succ, List.filter_append,
      List.length_append, List.filter_congr hbefore, ih, List.countP_append, List.countP_singleton,
      List.filter_singleton]
    simp only [List.getElem?_concat_length, Option.any_some]
    cases p x <;> rfl

/-- The tracker of a claim that takes no offset twice counts the handlings that are not done. -/
theorem count_eq_inFlightIn {l : ClaimLoop} (hr : ClaimView.Reachable w i (e.view i l))
    (honce : ((e.view i l).taken i).Nodup) : l.tracker.count = e.inFlightIn i := by
  have hcount : l.tracker.count = (e.view i l).running.length := hr.count_eq honce
  rw [hcount, inFlightIn, ← Array.countP_toList, ← length_filter_range, ClaimView.running]
  congr 2
  funext n
  rw [Array.getElem?_toList]
  rcases ht : e.handlings[n]? with _ | t
  · simp [view, handlingOf?, ht]
  · by_cases hloop : t.loop = i
    · simp [view, handlingOf?, ht, hloop]
    · simp [view, handlingOf?, ht, hloop]

/-- A message is handled by a claim for its partition. -/
theorem loop_of_handling (h₀ : e₀.IsFresh) (hrun : Run w e₀ e) {n : Nat} {t : Handling}
    (ht : e.handlings[n]? = some t) :
    ∃ l, e.loops[t.loop]? = some l ∧ l.source = t.envelope.source := by
  have hl := Array.getElem?_eq_getElem ((sound_of_run h₀.sound hrun).loop_lt n t ht)
  obtain ⟨m, -, ⟨fresh, henvelope⟩, -⟩ :=
    (reachable_of_run h₀ hrun hl).comesFrom.handled n t (handlingOf?_eq_some.2 ⟨ht, rfl⟩)
  refine ⟨_, hl, ?_⟩
  rw [henvelope]
  rfl

/-- A partition has nothing in flight before some claim loop has taken up a message for it. -/
theorem inFlightOn_of_lastMover? (h₀ : e₀.IsFresh) (hrun : Run w e₀ e)
    (hnone : e.lastMover? source = none) : e.inFlightOn source = 0 := by
  refine Array.countP_eq_zero.2 fun t ht hp => ?_
  simp only [Bool.and_eq_true, decide_eq_true_eq] at hp
  obtain ⟨n, ht⟩ := Array.getElem?_of_mem ht
  obtain ⟨l, hl, hsource⟩ := loop_of_handling h₀ hrun ht
  -- the message was taken up for its handling
  have hentered := ((reachable_of_run h₀ hrun hl).recorded.entered_iff t.envelope.offset n).2
    ⟨t, handlingOf?_eq_some.2 ⟨ht, rfl⟩, rfl⟩
  have hfirst := List.findSome?_eq_none_iff.1 hnone _ hentered
  rw [mover?, Option.filter_some, isOn_of_loop hl, hsource, hp.2, if_pos (decide_eq_true rfl)] at hfirst
  cases hfirst

/-- Two counts of which one includes the other are the same just when the converse holds as well. -/
theorem countP_eq_iff {α : Type} {xs : Array α} {p q : α → Bool} (h : ∀ x ∈ xs, p x = true → q x = true) :
    xs.countP p = xs.countP q ↔ ∀ x ∈ xs, q x = true → p x = true := by
  have hfilter : (xs.toList.filter q).filter p = xs.toList.filter p := by
    rw [List.filter_filter]
    refine List.filter_congr fun x hx => ?_
    cases hp : p x with
    | false => rfl
    | true => rw [h x (Array.mem_toList_iff.1 hx) hp, Bool.and_true]
  constructor
  · intro heq
    rw [← Array.countP_toList, ← Array.countP_toList, List.countP_eq_length_filter,
      List.countP_eq_length_filter, ← hfilter] at heq
    have hall := List.filter_eq_self.1 (List.filter_sublist.eq_of_length heq)
    exact fun x hx hq => hall x (List.mem_filter.2 ⟨Array.mem_toList_iff.2 hx, hq⟩)
  · exact fun hall => Array.countP_congr fun x hx => ⟨h x hx, hall x hx⟩

/-- What a claim loop for a partition has in flight is some of what the partition has, and it is all when
no other claim loop has anything. -/
theorem inFlightIn_le_inFlightOn (h₀ : e₀.IsFresh) (hrun : Run w e₀ e) {l : ClaimLoop}
    (hl : e.loops[i]? = some l) (hsource : l.source = source) :
    e.inFlightIn i ≤ e.inFlightOn source ∧
      (e.inFlightIn i = e.inFlightOn source ↔
        ∀ t ∈ e.handlings, t.phase ≠ .done → t.envelope.source = source → t.loop = i) := by
  have hincludes : ∀ t ∈ e.handlings, (decide (t.phase ≠ .done) && decide (t.loop = i)) = true →
      (decide (t.phase ≠ .done) && decide (t.envelope.source = source)) = true := by
    intro t ht hp
    simp only [Bool.and_eq_true, decide_eq_true_eq] at hp ⊢
    obtain ⟨n, ht⟩ := Array.getElem?_of_mem ht
    obtain ⟨l', hl', hsource'⟩ := loop_of_handling h₀ hrun ht
    rw [hp.2] at hl'
    obtain rfl := Option.some.inj (hl.symm.trans hl')
    exact ⟨hp.1, hsource'.symm.trans hsource⟩
  refine ⟨Array.countP_mono_left hincludes, (countP_eq_iff hincludes).trans ?_⟩
  refine forall₂_congr fun t _ => ?_
  simp only [Bool.and_eq_true, decide_eq_true_eq]
  exact ⟨fun h hp hs => (h ⟨hp, hs⟩).2, fun h hp => ⟨hp.1, h hp.1 hp.2⟩⟩

/-- **The level of a partition is what the claim loop has in flight that moved last.**  Let the messages
that came in for a partition have different offsets on each of its claims, and start without levels.

* If some claim loop for the partition has taken up or completed a message, the level is the number of
  messages that the one that did so last has in flight.  If none has, there is no level, and nothing is
  in flight.
* So the level is never too high; it is all that is in flight just when no other claim loop, be it one of
  another group or of a session that has ended, has anything.

Offsets have no bounds here and only tell messages apart; watermarks fit 64 bits if one more than each
offset does (`low_le_maxOffset`). -/
theorem level_of_last_mover (h₀ : e₀.IsFresh) (hm : e₀.metrics.inFlight = ∅) (hrun : Run w e₀ e)
    (hd : ∀ (i : Nat) (l : ClaimLoop), e.loops[i]? = some l → l.source = source →
      ((e.broker.channel l.channel).arrived.map Message.offset).Nodup) :
    e.metrics.inFlight.get? source = (e.lastMover? source).map (fun i => (e.inFlightIn i : Int)) ∧
      (e.lastMover? source = none → e.inFlightOn source = 0) ∧
      ∀ i, e.lastMover? source = some i →
        e.inFlightIn i ≤ e.inFlightOn source ∧
        (e.inFlightIn i = e.inFlightOn source ↔
          ∀ t ∈ e.handlings, t.phase ≠ .done → t.envelope.source = source → t.loop = i) := by
  have honce : e.TakesOnce source := fun i l hl hsource =>
    (reachable_of_run h₀ hrun hl).nodup_taken (hd i l hl hsource)
  refine ⟨?_, inFlightOn_of_lastMover? h₀ hrun, fun i hi => ?_⟩
  · have h := levelled_of_run h₀ hm hrun honce
    rw [Levelled, books, firstMover?_books] at h
    rw [lastMover?, h]
    rcases hi : e.firstMover? source e.events with _ | i
    · rfl
    · obtain ⟨l, hl, hsource⟩ := exists_of_firstMover? hi
      rw [Option.map_some, Option.map_some, trackedBy_of_loop hl,
        count_eq_inFlightIn (reachable_of_run h₀ hrun hl) (honce i l hl hsource)]
  · obtain ⟨l, hl, hsource⟩ := exists_of_firstMover? hi
    exact inFlightIn_le_inFlightOn h₀ hrun hl hsource

/-- Consumers of two groups take the same message. -/
def twoGroups : List Happening :=
  [.act (.createTopic "t" 1), .act (.start .sample),
    .act (.start { Member.sample with config := { Member.sample.config with groupId := "h" } }),
    .task (.member 0), .task (.member 0), .task (.member 1), .task (.member 1),
    .act (.deliver ⟨"t", 0⟩ .empty ⟨[]⟩), .task (.loop 0), .task (.loop 1)]

/-- The level is what the second group has in flight. -/
theorem level_of_last_mover_twoGroups :
    (play .holding {} twoGroups).metrics.inFlight.get? ⟨"t", 0⟩ = some 1 ∧
      ¬ ∀ t ∈ (play .holding {} twoGroups).handlings, t.phase ≠ .done →
        t.envelope.source = ⟨"t", 0⟩ → t.loop = 1 := by
  have hnodup : ∀ l ∈ (play .holding {} twoGroups).loops,
      (((play .holding {} twoGroups).broker.channel l.channel).arrived.map Message.offset).Nodup := by
    decide +kernel
  have hlast : (play .holding {} twoGroups).lastMover? ⟨"t", 0⟩ = some 1 := by decide +kernel
  have hin : (play .holding {} twoGroups).inFlightIn 1 = 1 := by decide +kernel
  have hon : (play .holding {} twoGroups).inFlightOn ⟨"t", 0⟩ = 2 := by decide +kernel
  obtain ⟨hlevel, -, hall⟩ := level_of_last_mover isFresh_empty rfl (run_play twoGroups {})
    fun i l hl _ => hnodup l (Array.mem_of_getElem? hl)
  refine ⟨?_, fun halone => ?_⟩
  · rw [hlevel, hlast, Option.map_some, hin]
    rfl
  · have heq := (hall 1 hlast).2.2 halone
    omega

/-- A level need not be all that is in flight: with two groups it tells of one message where there are
two. -/
theorem level_not_total :
    ¬ ∀ (w : World) (e : Engine) (source : TopicPartition) (n : Int), Run w {} e →
      e.metrics.inFlight.get? source = some n → n = e.inFlightOn source := by
  intro h
  have hlevel : (play .holding {} twoGroups).metrics.inFlight.get? ⟨"t", 0⟩ = some 1 := by
    decide +kernel
  have hon : (play .holding {} twoGroups).inFlightOn ⟨"t", 0⟩ = 2 := by decide +kernel
  have heq := h _ _ _ _ (run_play twoGroups {}) hlevel
  omega

end ConsumerGroup.Engine
