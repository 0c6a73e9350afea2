import ConsumerGroup.Engine.Handling
import ConsumerGroup.Proofs.Engine.Advance

/-!
# What the metrics tell of

Handlers that return, calls of the producer, messages that are passed over, and messages that get in
flight and are completed are counted.  The books are these counts together with the events that they
tell of; nothing else in an engine has to do with them.

* `Books` — the counts and the events.
* `Books.Calls`, `Books.Runs` — what a handling adds to the books in one go.
* `books_of_stepMember?`, `books_of_act` — members and what happens from outside leave the books alone.
* `books_of_stepLoop?`, `stepHandling?_books` — what claim loops and handlings do to them.
-/

namespace ConsumerGroup

/-- Whether the metrics tell of an event. -/
def Event.isCounted : Event → Bool
  | returned .. | called .. | skipped .. | entered .. | completed _ => true
  | _ => false

/-- Counts, and the events that they tell of, the latest first. -/
structure Books where
  /-- handled messages by topic and outcome -/
  handled : Table (String × String) Nat
  /-- running times of handlers by topic -/
  durations : Table String Histogram
  /-- skipped messages by topic -/
  skipped : Table String Nat
  /-- redeliveries by topic and outcome -/
  redeliveries : Table (String × String) Nat
  /-- messages in flight by partition -/
  inFlight : Table TopicPartition Int
  /-- the events -/
  events : List Event

namespace Books

/-- An event is added that needs no count. -/
def note (b : Books) (event : Event) : Books := { b with events := event :: b.events }

/-- Claim loop number `i` has passed over a message. -/
def passes (b : Books) (topic : String) (i : Nat) (o : Offset) : Books :=
  { b with skipped := Metrics.bump b.skipped topic }.note (.skipped i o)

/-- A level changes. -/
def setInFlight (b : Books) (source : TopicPartition) (n : Int) : Books :=
  { b with inFlight := b.inFlight.insert source n }

/-- The handler of handling number `h` has returned after so many seconds. -/
def returns (b : Books) (topic : String) (h : Nat) (outcome : Handler.Outcome) (seconds : Float) :
    Books :=
  { b with
    handled := Metrics.bump b.handled (topic, Handler.outcomeLabel outcome)
    durations := b.durations.insert topic (((b.durations.get? topic).getD {}).observe seconds) }.note
      (.returned h outcome)

/-- A redelivery has ended. -/
def redelivers (b : Books) (topic : String) (outcome : RedeliveryOutcome) : Books :=
  { b with redeliveries := Metrics.bump b.redeliveries (topic, outcome.label) }

/-- What one call of the producer by handling number `h` adds, and where the handling stands then. -/
inductive Calls (topic : String) (h : Nat) (b : Books) : HandlingPhase → Books → Prop where
  /-- the producer is to be called again -/
  | again {error : BrokerError} {calls delay wakeAt : Nat} {record : Record} :
      Calls topic h b (.resting calls delay record wakeAt) (b.note (.called h (.refused error)))
  /-- the record was taken -/
  | accepted {topic' : String} {delay : Nat} :
      Calls topic h b .done ((b.redelivers topic (.redelivered topic' delay)).note (.called h .accepted))
  /-- the producer has refused it for good -/
  | refused {error : BrokerError} :
      Calls topic h b .done
        ((b.redelivers topic (.publishFailed error)).note (.called h (.refused error)))
  /-- the producer has panicked -/
  | panicked {text : String} : Calls topic h b .done (b.note (.called h (.panicked text)))

/-- What the rest of the handler's program adds, and where the handling stands then. -/
inductive Runs (topic : String) (h : Nat) (b : Books) : HandlingPhase → Books → Prop where
  /-- the handler waits until it is released -/
  | holds {rest : Handler.Program} : Runs topic h b (.held rest) b
  /-- the handler is busy for a while -/
  | pauses {wakeAt : Nat} {rest : Handler.Program} : Runs topic h b (.pausing wakeAt rest) b
  /-- the handler succeeds -/
  | succeeds {seconds : Float} : Runs topic h b .done (b.returns topic h none seconds)
  /-- the handler fails, and the message is not redelivered -/
  | exhausted {failure : HandlerFailure} {seconds : Float} :
      Runs topic h b .done ((b.returns topic h (some failure) seconds).redelivers topic .exhausted)
  /-- the handler fails, and the message is redelivered -/
  | redelivers {failure : HandlerFailure} {seconds : Float} {phase : HandlingPhase} {b' : Books} :
      Calls topic h (b.returns topic h (some failure) seconds) phase b' → Runs topic h b phase b'

end Books

namespace Engine

variable {w : World} {e e' : Engine}

/-- The books of an engine. -/
def books (e : Engine) : Books where
  handled := e.metrics.handled
  durations := e.metrics.durations
  skipped := e.metrics.skipped
  redeliveries := e.metrics.redeliveries
  inFlight := e.metrics.inFlight
  events := e.events.filter Event.isCounted

theorem books_note (e : Engine) (event : Event) (h : event.isCounted = true) :
    (e.note event).books = e.books.note event := by
  simp only [books, note, Books.note, events, List.map_cons, List.filter_cons_of_pos h]

theorem books_note_of_not {event : Event} (e : Engine) (h : event.isCounted = false) :
    (e.note event).books = e.books := by
  simp [books, note, events, h]

theorem mark_keeps_books {i : Nat} {l : ClaimLoop} {o : Offset} {made : Bool}
    (h : e.mark i l o = (made, e')) : e'.books = e.books ∧ e'.handlings = e.handlings := by
  rw [mark] at h
  split at h <;> cases h <;> exact ⟨rfl, rfl⟩

/-! ## Claim loops -/

/-- What a claim loop does to the books: nothing, or it passes over a message, or a message gets in
flight with the next handling. -/
inductive LoopBooks (e : Engine) (i : Nat) (l : ClaimLoop) (e' : Engine) : Prop where
  /-- nothing -/
  | same : e'.books = e.books → e'.handlings = e.handlings → LoopBooks e i l e'
  /-- a message is passed over -/
  | passes {o : Offset} : e'.books = e.books.passes l.source.topic i o →
      e'.handlings = e.handlings → LoopBooks e i l e'
  /-- a message gets in flight -/
  | enters {env : Envelope} {l' : ClaimLoop} : l'.tracker = l.tracker.enter env.offset env →
      e'.loops = e.loops.setIfInBounds i l' →
      e'.books = (e.books.setInFlight l.source l'.tracker.count).note
        (.entered i env.offset e.handlings.size) →
      e'.handlings = e.handlings.push { loop := i, envelope := env } → LoopBooks e i l e'

/-- What was done before does not count if it has to do with neither books nor messages in flight. -/
theorem LoopBooks.after {e₁ : Engine} {i : Nat} {l l₁ : ClaimLoop} (h : e₁.LoopBooks i l₁ e')
    (hbooks : e₁.books = e.books) (hhandlings : e₁.handlings = e.handlings)
    (hloops : e₁.loops = e.loops) (hsource : l₁.source = l.source)
    (htracker : l₁.tracker = l.tracker) : e.LoopBooks i l e' := by
  cases h with
  | same hb hh => exact .same (hb.trans hbooks) (hh.trans hhandlings)
  | passes hb hh =>
    rw [hbooks, hsource] at hb
    exact .passes hb (hh.trans hhandlings)
  | enters ht hl hb hh =>
    rw [hbooks, hsource, hhandlings] at hb
    rw [htracker] at ht
    rw [hloops] at hl
    rw [hhandlings] at hh
    exact .enters ht hl hb hh

theorem closeLoop_keeps (e : Engine) (i : Nat) (l : ClaimLoop) :
    (e.closeLoop i l).books = e.books ∧ (e.closeLoop i l).handlings = e.handlings := by
  rw [closeLoop]
  split <;> exact ⟨rfl, rfl⟩

theorem LoopBooks.closes (e : Engine) (i : Nat) (l l' : ClaimLoop) :
    e.LoopBooks i l (e.closeLoop i l') :=
  .same (closeLoop_keeps e i l').1 (closeLoop_keeps e i l').2

theorem loopBooks_pass (e : Engine) (i : Nat) (l : ClaimLoop) (env : Envelope) :
    e.LoopBooks i l (e.pass i l env) := by
  rw [pass]
  dsimp only
  split
  · exact .passes rfl rfl
  · split
    -- whether or not the mark panics
    all_goals
      rename_i heq
      have hmark := mark_keeps_books heq
      exact .passes hmark.1 hmark.2

theorem loopBooks_offer (e : Engine) (i : Nat) (l : ClaimLoop) (env : Envelope) :
    e.LoopBooks i l (e.offer i l env) := by
  rw [offer]
  split
  · exact .enters rfl rfl rfl rfl
  · split
    · exact .closes _ _ _ _
    · exact .same rfl rfl

theorem loopBooks_take (e : Engine) (i : Nat) (l : ClaimLoop) (m : Message) :
    e.LoopBooks i l (take w e i l m) := by
  unfold take
  dsimp only
  split
  · exact (loopBooks_offer _ _ _ _).after rfl rfl rfl rfl rfl
  · exact (loopBooks_pass _ _ _ _).after rfl rfl rfl rfl rfl

theorem loopBooks_of_goLoop? {i : Nat} {l : ClaimLoop} (h : e.goLoop? w i l = some e') :
    e.LoopBooks i l e' := by
  rw [goLoop?] at h
  split at h
  · split at h
    · cases h
      exact .closes _ _ _ _
    · split at h <;> cases h
      · exact (loopBooks_take _ _ _ _).after rfl rfl rfl rfl rfl
      · exact .closes _ _ _ _
  · split at h
    · cases h
      exact .closes _ _ _ _
    · split at h <;> cases h
      · exact .enters rfl rfl rfl rfl
      · exact .closes _ _ _ _
  · split at h
    · cases h
      exact .same rfl rfl
    · cases h
      exact .same rfl rfl
    · split at h <;> cases h
      exact .same rfl rfl
  · cases h

/-- A claim loop that goes on does one of these to the books. -/
theorem books_of_stepLoop? {i : Nat} (h : e.stepLoop? w i = some e') :
    ∃ l, e.loops[i]? = some l ∧ e.LoopBooks i l e' := by
  rw [stepLoop?] at h
  split at h
  · cases h
  · rename_i l hl
    refine ⟨l, hl, ?_⟩
    split at h
    · cases h
    · split at h
      · cases h
        exact .same rfl rfl
      · exact loopBooks_of_goLoop? h

/-! ## Handlings -/

/-- A message is completed: the level of its partition follows the tracker of its claim loop. -/
theorem books_complete {n : Nat} {t : Handling} {l : ClaimLoop} (hl : e.loops[t.loop]? = some l) :
    (e.complete n t).books =
      match l.tracker.complete t.envelope.offset with
      | none => e.books.note (.completed n)
      | some (_, tracker) => (e.books.note (.completed n)).setInFlight l.source tracker.count := by
  have hl' : ((e.setHandling n { t with phase := .done }).note (.completed n)).loops[t.loop]? =
      some l := hl
  simp only [complete, hl']
  rcases l.tracker.complete t.envelope.offset with _ | ⟨c, tracker⟩
  · rfl
  · dsimp only
    split
    · rfl
    · exact (mark_keeps_books rfl).1

/-- The message leaves the tracker, unless another one with its offset has done so before. -/
theorem loops_complete {n : Nat} {t : Handling} {l : ClaimLoop} (hl : e.loops[t.loop]? = some l) :
    ∃ l', (e.complete n t).loops = e.loops.setIfInBounds t.loop l' ∧ l'.source = l.source ∧
      l'.tracker =
        match l.tracker.complete t.envelope.offset with
        | none => l.tracker
        | some (_, tracker) => tracker := by
  have hl' : ((e.setHandling n { t with phase := .done }).note (.completed n)).loops[t.loop]? =
      some l := hl
  simp only [complete, hl']
  rcases l.tracker.complete t.envelope.offset with _ | ⟨c, tracker⟩
  · exact ⟨_, rfl, rfl, rfl⟩
  · dsimp only
    split
    · exact ⟨_, rfl, rfl, rfl⟩
    · exact ⟨_, (marks_mark _ _ _ _).loops_eq, rfl, rfl⟩

/-- A handling `t` with number `n` is left at a phase: it waits, or its message is completed. -/
inductive LeftAt (e : Engine) (n : Nat) (t : Handling) : HandlingPhase → Engine → Prop where
  /-- it waits -/
  | waits {phase : HandlingPhase} : phase ≠ .done →
      LeftAt e n t phase (e.setHandling n { t with phase })
  /-- its message is completed -/
  | completes : LeftAt e n t .done (e.complete n t)

/-- Before a handling is left at a phase, it has noted things, and the books have come to `b`. -/
def Brings (e : Engine) (n : Nat) (t : Handling) (phase : HandlingPhase) (b : Books) (e' : Engine) :
    Prop :=
  ∃ e₁ : Engine, e₁.LeftAt n t phase e' ∧ e₁.loops = e.loops ∧ e₁.handlings = e.handlings ∧
    e₁.books = b

theorem askProducer_keeps (e : Engine) (record : Record) :
    (e.askProducer record).2.loops = e.loops ∧ (e.askProducer record).2.handlings = e.handlings ∧
      (e.askProducer record).2.books = e.books := by
  unfold askProducer
  dsimp only
  split
  · split <;> exact ⟨rfl, rfl, rfl⟩
  · exact ⟨rfl, rfl, rfl⟩

/-- A verdict counts a redelivery that has ended, and nothing else. -/
theorem books_count (e : Engine) (topic : String) (verdict : Verdict) :
    { e with metrics := verdict.count e.metrics topic }.books =
      match verdict with
      | .ended outcome => e.books.redelivers topic outcome
      | _ => e.books := by
  cases verdict with
  | ended outcome => cases outcome <;> rfl
  | _ => rfl

theorem callProducer_books (e : Engine) (n : Nat) (t : Handling) (calls delay : Nat) (record : Record) :
    ∃ phase b, Books.Calls t.envelope.topic n e.books phase b ∧
      e.Brings n t phase b (e.callProducer w n t calls delay record) := by
  obtain ⟨hloops, hhandlings, hbooks⟩ := askProducer_keeps e record
  simp only [callProducer]
  generalize e.askProducer record = answer at hloops hhandlings hbooks ⊢
  obtain ⟨reply, e₁⟩ := answer
  -- what is counted and noted before the verdict is carried out
  have hcount := (books_note { e₁ with
    metrics := (Verdict.of record.topic delay (calls + 1) reply).count e₁.metrics t.envelope.topic }
    (.called n reply) rfl).trans (congrArg (Books.note · _) (books_count e₁ _ _))
  rw [hbooks] at hcount
  cases reply with
  | accepted => exact ⟨_, _, .accepted, _, .completes, hloops, hhandlings, hcount⟩
  | refused error =>
    rw [Verdict.of] at hcount ⊢
    by_cases hagain : (error.isRetriable && calls + 1 < maxPublishCalls) = true
    · rw [if_pos hagain] at hcount ⊢
      exact ⟨_, _, .again, _, .waits (by simp), hloops, hhandlings, hcount⟩
    · rw [if_neg hagain] at hcount ⊢
      exact ⟨_, _, .refused, _, .completes, hloops, hhandlings, hcount⟩
  | panicked text => exact ⟨_, _, .panicked, _, .completes, hloops, hhandlings, hcount⟩

/-- The message of a handler that has failed is redelivered. -/
theorem redeliver_books {n : Nat} {t : Handling} {l : ClaimLoop} {b : Books} {failure : HandlerFailure}
    {seconds : Float} (hl : e.loops[t.loop]? = some l)
    (hb : e.books = b.returns t.envelope.topic n (some failure) seconds) :
    ∃ phase b', b.Runs t.envelope.topic n phase b' ∧ e.Brings n t phase b' (e.redeliver w n t) := by
  simp only [redeliver, hl]
  cases l.redeliverer.plan t.envelope with
  | exhausted =>
    have hcount := books_count e t.envelope.topic (.ended .exhausted)
    rw [hb] at hcount
    exact ⟨_, _, .exhausted, _, .completes, rfl, rfl, hcount⟩
  | publish delay record =>
    obtain ⟨phase, b', hcalls, hbrings⟩ := callProducer_books (w := w) e n t 0 delay record
    rw [hb] at hcalls
    exact ⟨phase, b', .redelivers hcalls, hbrings⟩

theorem handlerReturned_books {n : Nat} {t : Handling} {l : ClaimLoop}
    (hl : e.loops[t.loop]? = some l) (outcome : Handler.Outcome) :
    ∃ phase b, Books.Runs t.envelope.topic n e.books phase b ∧
      e.Brings n t phase b (e.handlerReturned w n t outcome) := by
  cases outcome with
  | none => exact ⟨_, _, .succeeds, _, .completes, rfl, rfl, rfl⟩
  | some failure =>
    simp only [handlerReturned]
    generalize he₁ : note _ (.returned n (some failure)) = e₁
    have hl₁ : e₁.loops[t.loop]? = some l := by
      rw [← he₁]
      exact hl
    have hb₁ : e₁.books = e.books.returns t.envelope.topic n (some failure)
        (Float.ofNat (e.now - t.startedAt) / 1000) := by
      rw [← he₁]
      rfl
    obtain ⟨phase, b, hruns, e₂, hleft, hloops, hhandlings, hbooks⟩ :=
      redeliver_books (w := w) hl₁ hb₁
    subst he₁
    exact ⟨phase, b, hruns, e₂, hleft, hloops, hhandlings, hbooks⟩

theorem runProgram_books {n : Nat} {t : Handling} {l : ClaimLoop}
    (hl : e.loops[t.loop]? = some l) (program : Handler.Program) :
    ∃ phase b, Books.Runs t.envelope.topic n e.books phase b ∧
      e.Brings n t phase b (e.runProgram w n t program) := by
  rcases program with _ | ⟨_ | millis | failure, rest⟩
  · exact handlerReturned_books (w := w) hl none
  · exact ⟨_, _, .holds, _, .waits (by simp), rfl, rfl, rfl⟩
  · exact ⟨_, _, .pauses, _, .waits (by simp), rfl, rfl, rfl⟩
  · exact handlerReturned_books (w := w) hl (some failure)

/-- What a handling `t` that goes on brings to the books, by where it stands. -/
inductive HandlingBooks (n : Nat) (t : Handling) (b : Books) : HandlingPhase → Books → Prop where
  /-- its handler is called, or goes on -/
  | runs {phase : HandlingPhase} {b' : Books} :
      t.phase = .fresh ∨ (∃ wakeAt rest, t.phase = .pausing wakeAt rest) →
      b.Runs t.envelope.topic n phase b' → HandlingBooks n t b phase b'
  /-- the producer is called once more -/
  | calls {calls delay wakeAt : Nat} {record : Record} {phase : HandlingPhase} {b' : Books} :
      t.phase = .resting calls delay record wakeAt → b.Calls t.envelope.topic n phase b' →
      HandlingBooks n t b phase b'

/-- A handling that goes on brings this to the books, and is left at a phase. -/
theorem stepHandling?_books {n : Nat} (h : e.stepHandling? w n = some e')
    (hloop : ∀ t, e.handlings[n]? = some t → t.loop < e.loops.size) :
    ∃ t l startedAt phase b, e.handlings[n]? = some t ∧ e.loops[t.loop]? = some l ∧
      HandlingBooks n t e.books phase b ∧ e.Brings n { t with startedAt } phase b e' := by
  rw [stepHandling?] at h
  split at h
  · cases h
  · rename_i t ht
    obtain ⟨l, hl⟩ : ∃ l, e.loops[t.loop]? = some l := ⟨_, Array.getElem?_eq_getElem (hloop t ht)⟩
    refine ⟨t, l, ?_⟩
    split at h
    · rename_i hp
      cases h
      obtain ⟨phase, b, hruns, hbrings⟩ := runProgram_books (w := w) (n := n)
        (e := e.note (.started n)) (t := { t with startedAt := e.now }) hl (w.handler n t.envelope)
      rw [books_note_of_not _ rfl] at hruns
      exact ⟨e.now, phase, b, ht, hl, .runs (Or.inl hp) hruns, hbrings⟩
    · cases h
    · rename_i wakeAt rest hp
      split at h <;> cases h
      obtain ⟨phase, b, hruns, hbrings⟩ := runProgram_books (w := w) (n := n) hl rest
      exact ⟨t.startedAt, phase, b, ht, hl, .runs (Or.inr ⟨wakeAt, rest, hp⟩) hruns, hbrings⟩
    · rename_i calls delay record wakeAt hp
      split at h <;> cases h
      obtain ⟨phase, b, hcalls, hbrings⟩ := callProducer_books (w := w) e n t calls delay record
      exact ⟨t.startedAt, phase, b, ht, hl, .calls hp hcalls, hbrings⟩
    · cases h

/-! ## Everybody else -/

@[simp] theorem books_joinGroup (e : Engine) (m : Nat) (member : Member) :
    (e.joinGroup m member).books = e.books := by
  unfold joinGroup
  dsimp only
  split
  · rfl
  · split <;> rfl

@[simp] theorem books_leave (e : Engine) (m : Nat) (member : Member) (s : SessionId)
    (result : Option BrokerError) : (e.leave m member s result).books = e.books := by
  unfold leave
  dsimp only
  split <;> rfl

/-- A member that goes on leaves the books alone. -/
theorem books_of_stepMember? {m : Nat} (h : e.stepMember? m = some e') : e'.books = e.books := by
  simp only [stepMember?, goMember?] at h
  repeat' split at h
  all_goals cases h
  all_goals first | rfl | simp

theorem books_of_act (e : Engine) (a : Act) : (e.act a).books = e.books := by
  cases a with
  | deliver source payload headers =>
    rw [act]
    split <;> rfl
  | release n =>
    obtain ⟨handlings, hrelease, -⟩ := e.releaseHandling_inv n
    rw [act, hrelease]
    rfl
  | _ => rfl

end Engine

end ConsumerGroup
