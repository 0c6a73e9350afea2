import ConsumerGroup.Engine.Member
import ConsumerGroup.Proofs.Claim.Handling
import ConsumerGroup.Proofs.Claim.Loop
import Mathlib.Logic.Function.Basic
import Mathlib.Logic.Relation

/-!
# One claim by itself

Of everything that runs, a claim is concerned with its loop, its messages and its handlings.  What
all others do comes to three things for it: messages come in, its loop is told to stop, and things are
noted that are none of its business.

* `ClaimView` — what concerns one claim.
* `ClaimView.Handles` — what one of its handlings comes to when it goes on.
* `ClaimView.Move` — one thing that happens to it.
* `ClaimView.Reachable` — where a claim can get to.

What holds of every reachable view holds of every claim of a running engine, in whatever order tasks
go on.
-/

namespace ConsumerGroup

/-! ## What an event is about -/

/-- The claim loop whose doing an event tells of. -/
def Event.claim? : Event → Option Nat
  | taken i _ | skipped i _ | parked i _ | entered i _ _ | ended i _ | marked i _ => some i
  | _ => none

/-- The handling whose doing an event tells of. -/
def Event.handling? : Event → Option Nat
  | started h | returned h _ | called h _ | completed h => some h
  | _ => none

/-- What a claim loop notes is about itself. -/
theorem ClaimLoop.Step.about {i now next : Nat} {l l' : ClaimLoop} {queue queue' : List Message}
    {env? : Option Envelope} {news : List Event}
    (h : l.Step i now next queue l' queue' env? news) :
    ∀ event ∈ news, event.claim? = some i ∧ event.handling? = none := by
  cases h with
  | @pass m rest fresh due tracker => cases due <;> simp [Event.claim?, Event.handling?]
  | _ => simp [Event.claim?, Event.handling?]

namespace Handling

variable {w : World} {n now startedAt : Nat} {r : Redeliverer} {phase? : Option HandlingPhase}
  {news : List Event}

theorem Calls.about {calls delay : Nat} {record : Record}
    (h : Calls w n now calls delay record phase? news) :
    ∀ event ∈ news, event.claim? = none ∧ event.handling? = some n := by
  cases h <;> simp [Event.claim?, Event.handling?]

theorem Runs.about {env : Envelope} {program : Handler.Program}
    (h : Runs w n now r env program phase? news) :
    ∀ event ∈ news, event.claim? = none ∧ event.handling? = some n := by
  cases h with
  | redelivers _ hc =>
    intro event hevent
    rcases List.mem_append.1 hevent with hevent | hevent
    · exact hc.about event hevent
    · rw [List.mem_singleton.1 hevent]
      exact ⟨rfl, rfl⟩
  | _ => simp [Event.claim?, Event.handling?]

/-- What a handling notes is about itself. -/
theorem Step.about {t : Handling} (h : t.Step w n now r phase? startedAt news) :
    ∀ event ∈ news, event.claim? = none ∧ event.handling? = some n := by
  cases h with
  | starts _ hr =>
    intro event hevent
    rcases List.mem_append.1 hevent with hevent | hevent
    · exact hr.about event hevent
    · rw [List.mem_singleton.1 hevent]
      exact ⟨rfl, rfl⟩
  | wakes _ _ hr => exact hr.about
  | calls _ _ hc => exact hc.about

end Handling

/-! ## Views -/

/-- What concerns one claim. -/
structure ClaimView where
  /-- its loop -/
  loop : ClaimLoop
  /-- all messages that ever came in, the oldest first -/
  arrived : List Message
  /-- those that were not taken, the oldest first -/
  queue : List Message
  /-- its handlings by number -/
  handling? : Nat → Option Handling
  /-- the number that the next handling gets -/
  next : Nat
  /-- what has happened, here and elsewhere, the latest first -/
  events : List Event

namespace ClaimView

/-- What handling number `n` of claim number `i` comes to when it goes on or its handler is released:
the handling and the claim loop afterwards, and what is noted. -/
inductive Handles (w : World) (i n : Nat) (l : ClaimLoop) (t : Handling) :
    Handling → ClaimLoop → List Event → Prop where
  /-- its handler is released -/
  | released {wakeAt : Nat} {rest : Handler.Program} : t.phase = .held rest →
      Handles w i n l t { t with phase := .pausing wakeAt rest } l []
  /-- it goes on and has to wait -/
  | waits {now startedAt : Nat} {phase : HandlingPhase} {news : List Event} :
      t.Step w n now l.redeliverer (some phase) startedAt news →
      Handles w i n l t { t with phase, startedAt } l news
  /-- it goes on and completes its message -/
  | completes {now startedAt : Nat} {l' : ClaimLoop} {mark : Option Offset} {news : List Event} :
      t.Step w n now l.redeliverer none startedAt news →
      l.Completes n t.envelope.offset l' mark →
      Handles w i n l t { t with phase := .done, startedAt } l'
        ((mark.map (.marked i)).toList ++ .completed n :: news)

/-- What happens to claim number `i`. -/
inductive Move (w : World) (i : Nat) : ClaimView → ClaimView → Prop where
  /-- messages come in -/
  | arrives {l : ClaimLoop} {arrived queue : List Message} {handling? : Nat → Option Handling}
      {next : Nat} {events : List Event} (ms : List Message) :
      Move w i ⟨l, arrived, queue, handling?, next, events⟩
        ⟨l, arrived ++ ms, queue ++ ms, handling?, next, events⟩
  /-- its loop is told to stop -/
  | told {l : ClaimLoop} {arrived queue : List Message} {handling? : Nat → Option Handling}
      {next : Nat} {events : List Event} {cancelled aborted : Bool} :
      (l.cancelled = true → cancelled = true) → (l.aborted = true → aborted = true) →
      Move w i ⟨l, arrived, queue, handling?, next, events⟩
        ⟨{ l with cancelled, aborted }, arrived, queue, handling?, next, events⟩
  /-- something happens elsewhere -/
  | elsewhere {l : ClaimLoop} {arrived queue : List Message} {handling? : Nat → Option Handling}
      {next next' : Nat} {events news : List Event} : next ≤ next' →
      (∀ event ∈ news, event.claim? ≠ some i ∧
        ∀ h, event.handling? = some h → handling? h = none ∧ h < next') →
      Move w i ⟨l, arrived, queue, handling?, next, events⟩
        ⟨l, arrived, queue, handling?, next', news ++ events⟩
  /-- its loop goes on without a new handling -/
  | goes {now : Nat} {l l' : ClaimLoop} {arrived queue queue' : List Message}
      {handling? : Nat → Option Handling} {next : Nat} {events news : List Event} :
      l.Step i now next queue l' queue' none news →
      Move w i ⟨l, arrived, queue, handling?, next, events⟩
        ⟨l', arrived, queue', handling?, next, news ++ events⟩
  /-- its loop starts a handling -/
  | enters {now : Nat} {l l' : ClaimLoop} {arrived queue queue' : List Message}
      {handling? : Nat → Option Handling} {next : Nat} {events news : List Event}
      {envelope : Envelope} : l.Step i now next queue l' queue' (some envelope) news →
      Move w i ⟨l, arrived, queue, handling?, next, events⟩
        ⟨l', arrived, queue', Function.update handling? next (some { loop := i, envelope }), next + 1,
          news ++ events⟩
  /-- a handling goes on -/
  | handles {l l' : ClaimLoop} {arrived queue : List Message} {handling? : Nat → Option Handling}
      {next n : Nat} {events news : List Event} {t t' : Handling} : handling? n = some t →
      Handles w i n l t t' l' news →
      Move w i ⟨l, arrived, queue, handling?, next, events⟩
        ⟨l', arrived, queue, Function.update handling? n (some t'), next, news ++ events⟩

/-- A claim that its member has just been handed. -/
structure IsNew (i : Nat) (v : ClaimView) : Prop where
  /-- its loop has done nothing -/
  loop_eq : ∃ member m claim, v.loop = Member.loopFor member m claim
  /-- no message was taken -/
  unread : v.queue = v.arrived
  /-- it has no handling -/
  idle : ∀ h, v.handling? h = none
  /-- what has happened is none of its business -/
  elsewhere : ∀ event ∈ v.events, event.claim? ≠ some i ∧ ∀ h, event.handling? = some h → h < v.next

/-- The views of claim number `i` that can come about. -/
inductive Reachable (w : World) (i : Nat) : ClaimView → Prop where
  /-- it is new -/
  | new {v : ClaimView} : v.IsNew i → Reachable w i v
  /-- something happens to it -/
  | move {v v' : ClaimView} : Reachable w i v → Move w i v v' → Reachable w i v'

variable {w : World} {i : Nat} {v v' : ClaimView}

theorem Reachable.moves (h : Reachable w i v) (hm : Relation.ReflTransGen (Move w i) v v') :
    Reachable w i v' := by
  induction hm with
  | refl => exact h
  | tail _ hmove ih => exact ih.move hmove

/-! ## What never changes -/

/-- What a claim loop was started with. -/
structure SameClaim (l l' : ClaimLoop) : Prop where
  /-- the member -/
  member_eq : l'.member = l.member
  /-- the group -/
  group_eq : l'.group = l.group
  /-- the partition -/
  source_eq : l'.source = l.source
  /-- the channel -/
  channel_eq : l'.channel = l.channel
  /-- how failed messages are redelivered -/
  redeliverer_eq : l'.redeliverer = l.redeliverer

theorem SameClaim.refl (l : ClaimLoop) : SameClaim l l := ⟨rfl, rfl, rfl, rfl, rfl⟩

theorem SameClaim.trans {l l' l'' : ClaimLoop} (h : SameClaim l l') (h' : SameClaim l' l'') :
    SameClaim l l'' where
  member_eq := h'.member_eq.trans h.member_eq
  group_eq := h'.group_eq.trans h.group_eq
  source_eq := h'.source_eq.trans h.source_eq
  channel_eq := h'.channel_eq.trans h.channel_eq
  redeliverer_eq := h'.redeliverer_eq.trans h.redeliverer_eq

end ClaimView

open ClaimView in
theorem ClaimLoop.Step.sameClaim {i now next : Nat} {l l' : ClaimLoop} {queue queue' : List Message}
    {env? : Option Envelope} {events : List Event}
    (h : l.Step i now next queue l' queue' env? events) : SameClaim l l' := by
  cases h <;> exact ⟨rfl, rfl, rfl, rfl, rfl⟩

open ClaimView in
theorem ClaimLoop.Completes.sameClaim {l l' : ClaimLoop} {h : Nat} {o : Offset}
    {mark : Option Offset} (hc : l.Completes h o l' mark) : SameClaim l l' := by
  cases hc <;> exact ⟨rfl, rfl, rfl, rfl, rfl⟩

/-- A handling stays that of its message, and the loop that of its claim. -/
theorem ClaimView.Handles.same {w : World} {i n : Nat} {l l' : ClaimLoop} {t t' : Handling}
    {news : List Event} (h : Handles w i n l t t' l' news) :
    t'.loop = t.loop ∧ t'.envelope = t.envelope ∧ SameClaim l l' := by
  cases h with
  | completes _ hc => exact ⟨rfl, rfl, hc.sameClaim⟩
  | _ => exact ⟨rfl, rfl, .refl l⟩

/-- The loop stays where it stands. -/
theorem ClaimView.Handles.loop_phase {w : World} {i n : Nat} {l l' : ClaimLoop} {t t' : Handling}
    {news : List Event} (h : Handles w i n l t t' l' news) : l'.phase = l.phase := by
  cases h with
  | completes _ hc => cases hc <;> rfl
  | _ => rfl

/-- What a handling notes is about itself, but for marks. -/
theorem ClaimView.Handles.about {w : World} {i n : Nat} {l l' : ClaimLoop} {t t' : Handling}
    {news : List Event} (h : Handles w i n l t t' l' news) :
    ∀ event ∈ news, event.claim? = none ∧ event.handling? = some n ∨
      (∃ o, event = .marked i o) ∧ event.handling? = none := by
  cases h with
  | released => simp
  | waits hstep => exact fun event he => Or.inl (hstep.about event he)
  | @completes _ _ _ mark _ hstep _ =>
    intro event he
    simp only [List.mem_append, List.mem_cons, Option.mem_toList, Option.map_eq_some_iff] at he
    rcases he with ⟨o, -, rfl⟩ | rfl | he
    · exact Or.inr ⟨⟨o, rfl⟩, rfl⟩
    · exact Or.inl ⟨rfl, rfl⟩
    · exact Or.inl (hstep.about event he)

/-- Whatever happens to a claim, it stays the same claim. -/
theorem ClaimView.Move.sameClaim {w : World} {i : Nat} {v v' : ClaimView} (h : Move w i v v') :
    SameClaim v.loop v'.loop := by
  cases h with
  | goes hstep => exact hstep.sameClaim
  | enters hstep => exact hstep.sameClaim
  | handles _ hh => exact hh.same.2.2
  | _ => exact ⟨rfl, rfl, rfl, rfl, rfl⟩

end ConsumerGroup
