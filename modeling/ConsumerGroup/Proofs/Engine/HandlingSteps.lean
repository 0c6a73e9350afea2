import ConsumerGroup.Engine.Handling
import ConsumerGroup.Proofs.Claim.Handling
import ConsumerGroup.Proofs.Claim.Loop
import ConsumerGroup.Proofs.Engine.LoopSteps

/-!
# A handling in a running engine

* `Engine.Works` — a handling has noted things, and may have handed the broker a record.
* `Engine.Comes` — what an engine comes to when one handling goes on.
* `Engine.stepHandling?_inv` — a handling that goes on does one `Handling.Step`; where that completes
  the message, its claim loop comes to what `ClaimLoop.Completes` says.
-/

namespace ConsumerGroup.Engine

variable {w : World} {e e' e₁ e₂ : Engine} {h : Nat} {t : Handling} {l : ClaimLoop}
  {events events' : List Event}

/-- From `e` to `e'` nothing has happened but that things were noted, and that the broker may have
been handed a record. -/
structure Works (e : Engine) (events : List Event) (e' : Engine) : Prop where
  /-- the clock stands -/
  now_eq : e'.now = e.now
  /-- members do not change -/
  members_eq : e'.members = e.members
  /-- loops do not change -/
  loops_eq : e'.loops = e.loops
  /-- handlings do not change -/
  handlings_eq : e'.handlings = e.handlings
  /-- what is noted -/
  journal_eq : e'.journal = events.map (e.now, ·) ++ e.journal
  /-- what the broker is handed -/
  broker : e'.broker = e.broker ∨ ∃ record, e'.broker = (e.broker.publish e.now record).2
  /-- as many marks are to panic -/
  markPanics_eq : e'.markPanics = e.markPanics

namespace Works

theorem refl (e : Engine) : e.Works [] e := ⟨rfl, rfl, rfl, rfl, rfl, Or.inl rfl, rfl⟩

theorem note (hw : e.Works events e₁) (event : Event) :
    e.Works (event :: events) (e₁.note event) where
  now_eq := hw.now_eq
  members_eq := hw.members_eq
  loops_eq := hw.loops_eq
  handlings_eq := hw.handlings_eq
  journal_eq := by simp only [Engine.note, hw.journal_eq, hw.now_eq, List.map_cons, List.cons_append]
  broker := hw.broker
  markPanics_eq := hw.markPanics_eq

theorem metrics (hw : e.Works events e₁) (metrics : Metrics) :
    e.Works events { e₁ with metrics } :=
  ⟨hw.now_eq, hw.members_eq, hw.loops_eq, hw.handlings_eq, hw.journal_eq, hw.broker,
    hw.markPanics_eq⟩

/-- The producer is called, and hands the record to the broker or not. -/
theorem askProducer (hw : e.Works events e₁) (hb : e₁.broker = e.broker) (record : Record) :
    e.Works events (e₁.askProducer record).2 := by
  have hpublish : ∀ {reply : Except BrokerError Unit} {b : Broker},
      e₁.broker.publish e₁.now record = (reply, b) → b = (e.broker.publish e.now record).2 := by
    intro reply b h
    rw [hb, hw.now_eq] at h
    rw [h]
  unfold Engine.askProducer
  dsimp only
  split
  · split
    · rename_i hp
      exact ⟨hw.now_eq, hw.members_eq, hw.loops_eq, hw.handlings_eq, hw.journal_eq,
        Or.inr ⟨record, hpublish hp⟩, hw.markPanics_eq⟩
    · rename_i hp
      exact ⟨hw.now_eq, hw.members_eq, hw.loops_eq, hw.handlings_eq, hw.journal_eq,
        Or.inr ⟨record, hpublish hp⟩, hw.markPanics_eq⟩
  · exact ⟨hw.now_eq, hw.members_eq, hw.loops_eq, hw.handlings_eq, hw.journal_eq, hw.broker,
      hw.markPanics_eq⟩

end Works

/-- From `e` to `e'` nothing has happened but that handling number `h` has gone on to `t'`, and its
claim loop `l` to `l'`. -/
structure Handles (e : Engine) (h : Nat) (t' : Handling) (l l' : ClaimLoop) (mark : Option Offset)
    (events : List Event) (e' : Engine) : Prop where
  /-- the clock stands -/
  now_eq : e'.now = e.now
  /-- members do not change -/
  members_eq : e'.members = e.members
  /-- other loops do not change -/
  loops_eq : e'.loops = e.loops.setIfInBounds t'.loop l'
  /-- other handlings do not change -/
  handlings_eq : e'.handlings = e.handlings.setIfInBounds h t'
  /-- what is noted -/
  journal_eq : e'.journal = events.map (e.now, ·) ++ e.journal
  /-- what the broker is handed, and what is marked -/
  broker : ∃ b, (b = e.broker ∨ ∃ record, b = (e.broker.publish e.now record).2) ∧
    e'.broker = mark.elim b (b.mark l.group l.source)

/-- What an engine comes to when handling number `h` has noted things and goes on to a phase, or
completes its message. -/
inductive Comes (e : Engine) (h : Nat) (t : Handling) (l : ClaimLoop) (events : List Event) :
    Option HandlingPhase → Engine → Prop where
  /-- it waits -/
  | waits {phase : HandlingPhase} {e' : Engine} :
      e.Handles h { t with phase } l l none events e' → Comes e h t l events (some phase) e'
  /-- the message is completed -/
  | completes {l' : ClaimLoop} {mark : Option Offset} {e' : Engine} :
      l.Completes h t.envelope.offset l' mark →
      e.Handles h { t with phase := .done } l l' mark
        ((mark.map (.marked t.loop)).toList ++ .completed h :: events) e' →
      -- only a mark that panics is not made when it is due
      (∀ c tracker, e.markPanics = 0 → l.tracker.complete t.envelope.offset = some (c, tracker) →
        mark = c.commit?) →
      Comes e h t l events none e'

/-- A handling waits after what it has noted. -/
theorem Works.waits (hw : e.Works events e₁) (hl : e.loops[t.loop]? = some l) (t' : Handling)
    (ht : t'.loop = t.loop) : e.Handles h t' l l none events (e₁.setHandling h t') where
  now_eq := hw.now_eq
  members_eq := hw.members_eq
  loops_eq := by
    obtain ⟨hi, rfl⟩ := Array.getElem?_eq_some_iff.1 hl
    simp only [setHandling, hw.loops_eq, ht]
    rw [Array.setIfInBounds_def, dif_pos hi, Array.set_getElem_self]
  handlings_eq := by simp only [setHandling, hw.handlings_eq]
  journal_eq := hw.journal_eq
  broker := ⟨e₁.broker, hw.broker, rfl⟩

/-- Who waits to be released has nothing to do with it. -/
theorem Works.holding (hw : e.Works events e₁) (holding : List Nat) :
    e.Works events { e₁ with holding } :=
  ⟨hw.now_eq, hw.members_eq, hw.loops_eq, hw.handlings_eq, hw.journal_eq, hw.broker,
    hw.markPanics_eq⟩

/-- An offset is marked, unless that panics. -/
theorem Handles.mark {t' : Handling} {l' l₁ : ClaimLoop} (hh : e.Handles h t' l l' none events e₁)
    (hg : l₁.group = l.group) (hs : l₁.source = l.source) {mark : Option Offset}
    (hm : e₁.Marks t'.loop l₁ mark e₂) :
    e.Handles h t' l l' mark ((mark.map (.marked t'.loop)).toList ++ events) e₂ where
  now_eq := hm.now_eq.trans hh.now_eq
  members_eq := hm.members_eq.trans hh.members_eq
  loops_eq := hm.loops_eq.trans hh.loops_eq
  handlings_eq := hm.handlings_eq.trans hh.handlings_eq
  journal_eq := by
    rw [hm.journal_eq, hh.journal_eq, hh.now_eq, List.map_append, List.append_assoc]
  broker := by
    obtain ⟨b, hb, heq⟩ := hh.broker
    refine ⟨b, hb, ?_⟩
    rw [hm.broker_eq, heq, hg, hs]
    rfl

/-- A message is completed after what the handling has noted. -/
theorem complete_inv (hw : e.Works events e₁) (hl : e.loops[t.loop]? = some l) :
    e.Comes h t l events none (e₁.complete h t) := by
  have hl₁ : ((e₁.setHandling h { t with phase := .done }).note (.completed h)).loops[t.loop]? =
      some l := by
    simp only [setHandling, Engine.note, hw.loops_eq, hl]
  have hwait := (hw.note (.completed h)).waits (h := h) hl { t with phase := .done } rfl
  simp only [complete, hl₁]
  split
  · rename_i hc
    refine .completes (.stray hc) ⟨hwait.now_eq, hwait.members_eq, ?_, hwait.handlings_eq,
      hwait.journal_eq, hwait.broker⟩ fun _ _ _ hcomplete =>
        (Option.some_ne_none _ (hcomplete.symm.trans hc)).elim
    simp only [setLoop, Engine.note, setHandling, hw.loops_eq]
  · rename_i c tracker hc
    -- the message has left the tracker, whatever becomes of the mark
    have hleft : ∀ metrics, e.Handles h { t with phase := .done } l
        { l with pool := l.pool.release (.handling h), tracker } none (.completed h :: events)
        (({ ((e₁.setHandling h { t with phase := .done }).note (.completed h)) with metrics }).setLoop
          t.loop { l with pool := l.pool.release (.handling h), tracker }) := by
      intro metrics
      refine ⟨hwait.now_eq, hwait.members_eq, ?_, hwait.handlings_eq, hwait.journal_eq, hwait.broker⟩
      simp only [setLoop, Engine.note, setHandling, hw.loops_eq]
    split
    · rename_i hn
      refine .completes (.done hc (Or.inl hn.symm)) (hleft _) fun c' _ _ hc' => ?_
      rw [← hn, (Prod.mk.inj (Option.some.inj (hc.symm.trans hc'))).1]
    · rename_i o ho
      refine .completes (.done hc ?_) ((hleft _).mark rfl rfl (marks_mark _ _ _ _)) ?_
      · split
        · exact Or.inl ho.symm
        · exact Or.inr rfl
      · intro c' _ hnone hc'
        rw [← (Prod.mk.inj (Option.some.inj (hc.symm.trans hc'))).1, ho, if_pos]
        exact (made_iff rfl).2 (hw.markPanics_eq.trans hnone)

/-- One call of the producer. -/
theorem callProducer_inv (hw : e.Works events e₁) (hb : e₁.broker = e.broker)
    (hl : e.loops[t.loop]? = some l) (calls delay : Nat) (record : Record) :
    ∃ phase? events', Handling.Calls w h e.now calls delay record phase? events' ∧
      e.Comes h t l (events' ++ events) phase? (e₁.callProducer w h t calls delay record) := by
  rcases hask : e₁.askProducer record with ⟨reply, e₂⟩
  have hasked := hw.askProducer hb record
  rw [hask] at hasked
  have hnow : e₂.now = e.now := hasked.now_eq
  have hcalled := (hasked.metrics
    ((Verdict.of record.topic delay (calls + 1) reply).count e₂.metrics t.envelope.topic)).note
      (.called h reply)
  simp only [callProducer, hask]
  split
  · rename_i hv
    have hagain : Handling.Calls w h e.now calls delay record (some (.resting (calls + 1) delay record
        (e₂.now + w.rest h (calls + 1)))) [.called h reply] := by
      rw [hnow]
      exact .again hv
    exact ⟨_, _, hagain, .waits (hcalled.waits hl { t with
      phase := .resting (calls + 1) delay record (e₂.now + w.rest h (calls + 1)) } rfl)⟩
  · rename_i hv
    exact ⟨_, _, .ended fun hagain => hv hagain, complete_inv hcalled hl⟩

/-- The handler has returned. -/
theorem handlerReturned_inv (hw : e.Works events e₁) (hb : e₁.broker = e.broker)
    (hl : e.loops[t.loop]? = some l) (outcome : Handler.Outcome) (rest : Handler.Program) :
    ∃ phase? events',
      Handling.Runs w h e.now l.redeliverer t.envelope
        (outcome.elim [] fun failure => .fail failure :: rest) phase? events' ∧
      e.Comes h t l (events' ++ events) phase? (e₁.handlerReturned w h t outcome) := by
  have hreturned := (hw.metrics (e₁.metrics.recordHandled t.envelope.topic
    (Handler.outcomeLabel outcome) (Float.ofNat (e₁.now - t.startedAt) / 1000))).note
      (.returned h outcome)
  cases outcome with
  | none => exact ⟨_, _, .succeeds, complete_inv hreturned hl⟩
  | some failure =>
    have hloop := hl
    rw [← hreturned.loops_eq] at hloop
    simp only [handlerReturned, redeliver, hloop]
    split
    · rename_i hplan
      exact ⟨_, _, .exhausted hplan, complete_inv (hreturned.metrics _) hl⟩
    · rename_i delay record hplan
      obtain ⟨phase?, events', hcalls, hcomes⟩ :=
        callProducer_inv (w := w) (h := h) hreturned hb hl 0 delay record
      refine ⟨phase?, _, .redelivers hplan hcalls, ?_⟩
      rw [List.append_assoc]
      exact hcomes

/-- The handler goes on with its program. -/
theorem runProgram_inv (hw : e.Works events e₁) (hb : e₁.broker = e.broker)
    (hl : e.loops[t.loop]? = some l) (program : Handler.Program) :
    ∃ phase? events', Handling.Runs w h e.now l.redeliverer t.envelope program phase? events' ∧
      e.Comes h t l (events' ++ events) phase? (e₁.runProgram w h t program) := by
  rcases program with _ | ⟨_ | millis | failure, rest⟩
  · exact handlerReturned_inv hw hb hl none []
  · exact ⟨_, _, .holds, .waits ((hw.holding _).waits hl { t with phase := .held rest } rfl)⟩
  · refine ⟨_, _, .pauses, .waits ?_⟩
    have hwait := hw.waits (h := h) hl { t with phase := .pausing (e.now + millis) rest } rfl
    simpa only [runProgram, hw.now_eq, List.nil_append] using hwait
  · exact handlerReturned_inv hw hb hl (some failure) rest

/-- **Steps.**  A handling that goes on does one step, and nothing else happens. -/
theorem stepHandling?_inv (hstep : e.stepHandling? w h = some e')
    (hloop : ∀ t, e.handlings[h]? = some t → t.loop < e.loops.size) :
    ∃ t l phase? startedAt events, e.handlings[h]? = some t ∧ e.loops[t.loop]? = some l ∧
      t.Step w h e.now l.redeliverer phase? startedAt events ∧
      e.Comes h { t with startedAt } l events phase? e' := by
  rcases ht : e.handlings[h]? with _ | t
  · simp only [stepHandling?, ht] at hstep
    cases hstep
  obtain ⟨l, hl⟩ : ∃ l, e.loops[t.loop]? = some l := ⟨_, Array.getElem?_eq_getElem (hloop t ht)⟩
  refine ⟨t, l, ?_⟩
  simp only [stepHandling?, ht] at hstep
  split at hstep
  · rename_i hp
    obtain rfl := Option.some.inj hstep
    obtain ⟨phase?, events, hruns, hcomes⟩ :=
      runProgram_inv (w := w) (h := h) (t := { t with startedAt := e.now })
        ((Works.refl e).note (.started h)) rfl hl (w.handler h t.envelope)
    exact ⟨phase?, e.now, _, rfl, hl, .starts hp hruns, hcomes⟩
  · cases hstep
  · rename_i wakeAt rest hp
    split at hstep
    · rename_i hwake
      obtain rfl := Option.some.inj hstep
      obtain ⟨phase?, events, hruns, hcomes⟩ :=
        runProgram_inv (w := w) (h := h) (t := t) (Works.refl e) rfl hl rest
      rw [List.append_nil] at hcomes
      exact ⟨phase?, t.startedAt, _, rfl, hl, .wakes hp hwake hruns, hcomes⟩
    · cases hstep
  · rename_i calls delay record wakeAt hp
    split at hstep
    · rename_i hwake
      obtain rfl := Option.some.inj hstep
      obtain ⟨phase?, events, hcalls, hcomes⟩ :=
        callProducer_inv (w := w) (h := h) (t := t) (Works.refl e) rfl hl calls delay record
      rw [List.append_nil] at hcomes
      exact ⟨phase?, t.startedAt, _, rfl, hl, .calls hp hwake hcalls, hcomes⟩
    · cases hstep
  · cases hstep

end ConsumerGroup.Engine
