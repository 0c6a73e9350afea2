import ConsumerGroup.Engine.Handling
import ConsumerGroup.Proofs.Broker.Topics
import ConsumerGroup.Proofs.Claim.Processed
import ConsumerGroup.Proofs.Engine.Advance

/-!
# What a handling publishes

The logs of the broker and the calls of the producer that were accepted change together: a handling
that goes on hands at most one record to the broker, this is the record of its redelivery, and the
message is completed then.

Main statement: `publishes_of_stepHandling?`.
-/

namespace ConsumerGroup

/-- The handling that called the producer, if the record was taken. -/
def Event.accepted? : Event → Option Nat
  | called n .accepted => some n
  | _ => none

/-- A record that a handling has to publish: the one that is planned for its message, or the one that
the producer was called with before. -/
def Handling.Offers (t : Handling) (r : Redeliverer) (record : Record) : Prop :=
  (∃ delay, r.plan t.envelope = .publish delay record) ∨
    ∃ calls delay wakeAt, t.phase = .resting calls delay record wakeAt

namespace Engine

/-- The handlings whose records were taken, the latest first. -/
def accepted (e : Engine) : List Nat := e.events.filterMap Event.accepted?

/-- From `e` to `e'` handling number `n` has published one of the records that it offers, and has
completed its message as `t`, or no log has changed. -/
inductive Publishes (e : Engine) (n : Nat) (t : Handling) (offers : Record → Prop) :
    Engine → Prop where
  /-- nothing was published -/
  | nothing {e' : Engine} : e'.broker.topics = e.broker.topics → e'.accepted = e.accepted →
      Publishes e n t offers e'
  /-- a record was published -/
  | record {e' : Engine} {record : Record} {b : Broker} : offers record →
      e.broker.publish e.now record = (.ok (), b) → e'.broker.topics = b.topics →
      e'.accepted = n :: e.accepted →
      e'.handlings = e.handlings.setIfInBounds n { t with phase := .done } →
      Publishes e n t offers e'

/-! ## Parts of a step -/

@[simp] theorem accepted_setLoop (e : Engine) (i : Nat) (l : ClaimLoop) :
    (e.setLoop i l).accepted = e.accepted := rfl

@[simp] theorem accepted_setHandling (e : Engine) (n : Nat) (t : Handling) :
    (e.setHandling n t).accepted = e.accepted := rfl

theorem accepted_note (e : Engine) (event : Event) :
    (e.note event).accepted = event.accepted?.toList ++ e.accepted := by
  simp only [accepted, events, note, List.map_cons, List.filterMap_cons]
  cases event.accepted? <;> rfl

theorem mark_keeps (e : Engine) (i : Nat) (l : ClaimLoop) (o : Offset) :
    (e.mark i l o).2.broker.topics = e.broker.topics ∧ (e.mark i l o).2.accepted = e.accepted ∧
      (e.mark i l o).2.handlings = e.handlings := by
  rw [mark]
  split
  · exact ⟨rfl, rfl, rfl⟩
  · exact ⟨rfl, accepted_note _ _, rfl⟩

theorem complete_keeps (e : Engine) (n : Nat) (t : Handling) :
    (e.complete n t).broker.topics = e.broker.topics ∧ (e.complete n t).accepted = e.accepted ∧
      (e.complete n t).handlings = e.handlings.setIfInBounds n { t with phase := .done } := by
  rw [complete]
  dsimp only
  split
  · exact ⟨rfl, accepted_note _ _, rfl⟩
  · split
    · exact ⟨rfl, accepted_note _ _, rfl⟩
    · split
      · exact ⟨rfl, accepted_note _ _, rfl⟩
      · obtain ⟨htopics, haccepted, hhandlings⟩ := mark_keeps _ _ _ _
        exact ⟨htopics, haccepted.trans (accepted_note _ _), hhandlings⟩

/-- A reply says that the record was taken exactly if the broker has taken it. -/
theorem askProducer_inv {e e' : Engine} {record : Record} {reply : Reply}
    (h : e.askProducer record = (reply, e')) :
    e'.journal = e.journal ∧ e'.handlings = e.handlings ∧
      ((reply = .accepted ∧ e.broker.publish e.now record = (.ok (), e'.broker)) ∨
        (reply ≠ .accepted ∧ e'.broker.topics = e.broker.topics)) := by
  unfold askProducer at h
  dsimp only at h
  split at h
  · split at h
    · rename_i hp
      obtain ⟨rfl, rfl⟩ := Prod.mk.inj h
      exact ⟨rfl, rfl, Or.inl ⟨rfl, hp⟩⟩
    · rename_i hp
      obtain ⟨rfl, rfl⟩ := Prod.mk.inj h
      exact ⟨rfl, rfl, Or.inr ⟨nofun, Broker.topics_publish_error hp⟩⟩
  · rename_i hne
    obtain ⟨rfl, rfl⟩ := Prod.mk.inj h
    exact ⟨rfl, rfl, Or.inr ⟨hne, rfl⟩⟩

section

variable {w : World} {e e₁ e' : Engine} {n : Nat} {t : Handling} {offers : Record → Prop}

/-- What was noted before does not matter if it was no reply. -/
theorem Publishes.after (h : e₁.Publishes n t offers e') (hnow : e₁.now = e.now)
    (hbroker : e₁.broker = e.broker) (hhandlings : e₁.handlings = e.handlings)
    (haccepted : e₁.accepted = e.accepted) : e.Publishes n t offers e' := by
  cases h with
  | nothing htopics hsame =>
    exact .nothing (htopics.trans (congrArg Broker.topics hbroker)) (hsame.trans haccepted)
  | record ho hp htopics hmore hset =>
    rw [hbroker, hnow] at hp
    rw [haccepted] at hmore
    rw [hhandlings] at hset
    exact .record ho hp htopics hmore hset

theorem Publishes.mono {offers' : Record → Prop} (h : e.Publishes n t offers e')
    (ho : ∀ record, offers record → offers' record) : e.Publishes n t offers' e' := by
  cases h with
  | nothing htopics hsame => exact .nothing htopics hsame
  | record hr hp htopics hmore hset => exact .record (ho _ hr) hp htopics hmore hset

theorem publishes_complete (e : Engine) (n : Nat) (t : Handling) :
    e.Publishes n t offers (e.complete n t) :=
  .nothing (complete_keeps e n t).1 (complete_keeps e n t).2.1

theorem publishes_callProducer (e : Engine) (n : Nat) (t : Handling) (calls delay : Nat)
    (record : Record) : e.Publishes n t (· = record) (e.callProducer w n t calls delay record) := by
  rcases hask : e.askProducer record with ⟨reply, e₁⟩
  obtain ⟨hjournal, hhandlings, hreply⟩ := askProducer_inv hask
  have hold : e₁.accepted = e.accepted := by rw [accepted, events, hjournal, accepted, events]
  simp only [callProducer, hask]
  rcases hreply with ⟨rfl, hp⟩ | ⟨hne, htopics⟩
  · -- nothing follows but that the message is completed
    rw [show Verdict.of record.topic delay (calls + 1) .accepted =
      .ended (.redelivered record.topic delay) from rfl]
    obtain ⟨htopics, haccepted, hset⟩ := complete_keeps _ n t
    refine .record rfl hp htopics ?_ (hset.trans ?_)
    · rw [haccepted, accepted_note, ← hold]
      rfl
    · rw [← hhandlings]
      rfl
  · have hnone : ∀ e₂ : Engine, (e₂.note (.called n reply)).accepted = e₂.accepted := by
      intro e₂
      rw [accepted_note]
      cases reply with
      | accepted => exact absurd rfl hne
      | refused => rfl
      | panicked => rfl
    split
    · exact .nothing htopics ((hnone _).trans hold)
    · obtain ⟨htopics', haccepted, -⟩ := complete_keeps _ n t
      exact .nothing (htopics'.trans htopics) (haccepted.trans ((hnone _).trans hold))

theorem publishes_redeliver {l : ClaimLoop} (hl : e.loops[t.loop]? = some l) :
    e.Publishes n t (t.Offers l.redeliverer) (e.redeliver w n t) := by
  simp only [redeliver, hl]
  split
  · exact (publishes_complete _ n t).after rfl rfl rfl rfl
  · rename_i delay record hplan
    refine (publishes_callProducer e n t 0 delay record).mono ?_
    rintro _ rfl
    exact Or.inl ⟨delay, hplan⟩

/-- The handler goes on, and returns or waits. -/
theorem publishes_runProgram {l : ClaimLoop} (hl : e.loops[t.loop]? = some l)
    (program : Handler.Program) :
    e.Publishes n t (t.Offers l.redeliverer) (e.runProgram w n t program) := by
  rcases program with _ | ⟨_ | millis | failure, rest⟩
  · exact (publishes_complete _ n t).after rfl rfl rfl (accepted_note _ _)
  · exact .nothing rfl rfl
  · exact .nothing rfl rfl
  · rw [runProgram, handlerReturned]
    exact Publishes.after (publishes_redeliver (by exact hl)) rfl rfl rfl (accepted_note _ _)

end

/-! ## Steps -/

variable {w : World} {e e' : Engine} {n : Nat}

/-- **Publishing.**  A handling that goes on publishes the record that is planned for its message, and
is done then, or no log changes. -/
theorem publishes_of_stepHandling? (h : e.stepHandling? w n = some e')
    (hr : ∀ (i : Nat) (l : ClaimLoop), e.loops[i]? = some l → ClaimView.Reachable w i (e.view i l))
    (hloop : ∀ t, e.handlings[n]? = some t → t.loop < e.loops.size) :
    ∃ t l startedAt, e.handlings[n]? = some t ∧ t.phase ≠ .done ∧ e.loops[t.loop]? = some l ∧
      e.Publishes n { t with startedAt }
        (fun record => ∃ delay, l.redeliverer.plan t.envelope = .publish delay record) e' := by
  rcases ht : e.handlings[n]? with _ | t
  · simp only [stepHandling?, ht] at h
    cases h
  obtain ⟨l, hl⟩ : ∃ l, e.loops[t.loop]? = some l := ⟨_, Array.getElem?_eq_getElem (hloop t ht)⟩
  -- a record that is handed over once more is the planned one, too
  have hoffers : ∀ record, t.Offers l.redeliverer record →
      ∃ delay, l.redeliverer.plan t.envelope = .publish delay record := by
    rintro record (hplan | ⟨calls, delay, wakeAt, hp⟩)
    · exact hplan
    · have hfits := (hr t.loop l hl).fits_journal n t (handlingOf?_eq_some.2 ⟨ht, rfl⟩)
      rw [Handling.Fits, hp] at hfits
      exact ⟨delay, hfits.1⟩
  simp only [stepHandling?, ht] at h
  split at h
  · rename_i hp
    obtain rfl := Option.some.inj h
    refine ⟨t, l, e.now, rfl, by simp [hp], hl, ?_⟩
    have hrun : (e.note (.started n)).Publishes n { t with startedAt := e.now }
        (({ t with startedAt := e.now } : Handling).Offers l.redeliverer)
        ((e.note (.started n)).runProgram w n { t with startedAt := e.now }
          (w.handler n t.envelope)) := publishes_runProgram (by exact hl) _
    exact Publishes.after (hrun.mono hoffers) rfl rfl rfl (accepted_note _ _)
  · cases h
  · rename_i wakeAt rest hp
    split at h
    · obtain rfl := Option.some.inj h
      exact ⟨t, l, t.startedAt, rfl, by simp [hp], hl, (publishes_runProgram hl rest).mono hoffers⟩
    · cases h
  · rename_i calls delay record wakeAt hp
    split at h
    · obtain rfl := Option.some.inj h
      refine ⟨t, l, t.startedAt, rfl, by simp [hp], hl,
        (publishes_callProducer e n t calls delay record).mono ?_⟩
      rintro _ rfl
      exact hoffers _ (Or.inr ⟨calls, delay, wakeAt, hp⟩)
    · cases h
  · cases h

/-- Whatever else a task does leaves the logs alone, and calls no producer. -/
theorem topics_of_stepLoop? {i : Nat} (h : e.stepLoop? w i = some e') (hs : e.Sound) :
    e'.broker.topics = e.broker.topics ∧ e'.accepted = e.accepted := by
  obtain ⟨l, l', queue, env?, news, -, hstep, hgoes⟩ :=
    stepLoop?_inv h (hs.fits i) fun l hl => hs.channel_lt hl
  refine ⟨hgoes.broker.topics_eq, ?_⟩
  rw [accepted, events_of_journal_eq hgoes.journal_eq, List.filterMap_append]
  have hnone : news.filterMap Event.accepted? = [] := by
    rw [List.filterMap_eq_nil_iff]
    intro event he
    have habout := (hstep.about event he).2
    cases event <;> first | rfl | cases habout
  rw [hnone, List.nil_append, accepted]

end Engine

end ConsumerGroup
