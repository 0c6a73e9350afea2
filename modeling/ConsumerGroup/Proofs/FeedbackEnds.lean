import ConsumerGroup.Proofs.Feedback.Chains
import ConsumerGroup.Proofs.Feedback.Quiet

/-!
# The feedback ends

Consumers publish failed messages to the very topic that they read, so work makes work.  As a message
is published again only with a higher count and only up to a limit, this comes to an end, whatever the
messages say, whatever the handlers do and whatever the producer answers.

Main statement: `feedback_ends`.
-/

namespace ConsumerGroup

variable {w : World} {topic : String} {k : Ledger} {e : Engine}

/-- Messages of the topic came in from outside or were published by a handling. -/
theorem Feeding.origin (h : Feeding w topic k e) (place : TopicPartition × Nat) :
    place.1.topic = topic ∧ (e.broker.message? place).isSome = true ↔
      place ∈ k.delivered ∨ ∃ o n, place = (⟨topic, 0⟩, o) ∧ (o, n) ∈ k.published := by
  rw [← h.tells.places, Ledger.places, List.mem_append, List.mem_map]
  refine or_congr_right ⟨?_, ?_⟩
  · rintro ⟨⟨o, n⟩, hp, rfl⟩
    exact ⟨o, n, rfl, hp⟩
  · rintro ⟨o, n, rfl, hp⟩
    exact ⟨(o, n), hp, rfl⟩

/-- What was published has the count of the message that failed, and one more. -/
theorem Feeding.redelivery (h : Feeding w topic k e) {o n : Nat} (hp : (o, n) ∈ k.published) :
    ∃ place m member message message',
      e.Handled place m n ∧ e.members[m]? = some member ∧ e.broker.message? place = some message ∧
      e.broker.message? (⟨topic, 0⟩, o) = some message' ∧
      message'.headers.get? Headers.retryKey =
        some (Nat.repr (readRetryTimes (message.headers.get? Headers.retryKey) + 1)) ∧
      readRetryTimes (message.headers.get? Headers.retryKey) + 1 ≤ member.config.retryLimit := by
  obtain ⟨m, -, place, hn⟩ := h.handled_of_published hp
  obtain ⟨-, -, message, -, -, -, -, -, hm, -, -⟩ := h.of_handled hn
  obtain ⟨member, message', hmember, hm', hcount, hlimit, -⟩ := h.count_of_published hp hn
  rw [Engine.retriesAt, hm, Option.elim_some] at hcount hlimit
  exact ⟨place, m, member, message, message', hn, hmember, hm, hm', hcount, hlimit⟩

/-- When nobody can go on, each handling has called its handler, and once. -/
theorem Feeding.started_once (h : Feeding w topic k e) (hq : e.IsQuiet w)
    {place : TopicPartition × Nat} {m n : Nat} (hn : e.Handled place m n) :
    e.events.count (.started n) = 1 := by
  obtain ⟨t, l, ht, hl, -⟩ := hn
  have hstarted := (h.service.reachable hl).recorded.started n t
    (Engine.handlingOf?_eq_some.2 ⟨ht, rfl⟩)
  rw [hq.done t (Array.mem_toList_iff.2 (Array.mem_of_getElem? ht))] at hstarted
  exact hstarted

/-- **The feedback ends.**  Groups read a topic and publish failed messages to it again; no session
ends and no message is dropped.

* At any time, a message of the topic came in from outside or was published by a handling, and for
  each record that the producer took there is one.  What was published carries a count that is one above
  that of the message it redelivers, and at most the limit of the member that redelivers it.
* At any time, the messages that came in from outside bound all messages, those that were taken, and
  the handlings, whatever happens and however long it goes on.
* A run without an end, into which only so many messages come from outside, becomes quiet: from some
  time on no message is added, and no claim loop and no handling goes on.
* When there is one group, all its handlers fail and the producer takes everything, then at the end
  a message for the group has been handled once for each count from its own up to the limit, over all
  its redeliveries, and published again once less. -/
theorem feedback_ends (w : World) (topic : String) :
    (∀ k e, Feeding w topic k e →
      (∀ place, place.1.topic = topic ∧ (e.broker.message? place).isSome = true ↔
        place ∈ k.delivered ∨ ∃ o n, place = (⟨topic, 0⟩, o) ∧ (o, n) ∈ k.published) ∧
      k.published.map Prod.snd = e.accepted ∧
      (∀ o n, (o, n) ∈ k.published → ∃ place m member message message',
        e.Handled place m n ∧ e.members[m]? = some member ∧ e.broker.message? place = some message ∧
        e.broker.message? (⟨topic, 0⟩, o) = some message' ∧
        message'.headers.get? Headers.retryKey =
          some (Nat.repr (readRetryTimes (message.headers.get? Headers.retryKey) + 1)) ∧
        readRetryTimes (message.headers.get? Headers.retryKey) + 1 ≤ member.config.retryLimit) ∧
      ∀ limit, (∀ member ∈ e.members.toList, member.config.retryLimit ≤ limit) →
        (k.places topic).length ≤ k.delivered.length * (e.members.size + 1) ^ limit ∧
        e.takes.length ≤ e.members.size * (k.places topic).length ∧
        e.handlings.size ≤ e.takes.length) ∧
    (∀ ks es ts, Endless w topic ks es ts → ∀ messages members : Nat,
      (∀ j, (ks j).delivered.length ≤ messages) → (∀ j, (es j).members.size ≤ members) →
      ∃ j₀, ∀ j, j₀ ≤ j → ks j = ks j₀ ∧ (∀ i, ts j ≠ some (.loop i)) ∧
        ∀ n, ts j ≠ some (.handling n)) ∧
    ∀ k e, Feeding w topic k e → e.IsQuiet w → e.AllFail → ∀ group limit, e.OneGroup group limit →
      ∀ place message, place ∈ k.places topic → e.broker.message? place = some message →
      (∀ fresh, (Envelope.ofMessage fresh place.1 message).isAddressedTo group = true) →
      (e.chainHandlings topic k place).encard =
        (limit - readRetryTimes (message.headers.get? Headers.retryKey) + 1 : Nat) ∧
      (e.chainPublished topic k place).encard =
        (limit - readRetryTimes (message.headers.get? Headers.retryKey) : Nat) ∧
      ∀ n ∈ e.chainHandlings topic k place, e.events.count (.started n) = 1 := by
  refine ⟨?_, ?_, ?_⟩
  · intro k e h
    exact ⟨h.origin, h.tells.accepted, fun o n hp => h.redelivery hp, fun limit hlimit =>
      ⟨h.messages_le hlimit, h.takes_le, h.handlings_le_takes⟩⟩
  · intro ks es ts h messages members hmessages hmembers
    exact h.becomes_quiet hmessages hmembers
  · intro k e h hq hfail group limit hone place message hplace hm haddressed
    have hretries : e.retriesAt place = readRetryTimes (message.headers.get? Headers.retryKey) := by
      rw [Engine.retriesAt, hm, Option.elim_some]
    obtain ⟨hhandled, hpublished⟩ := h.encard_chain hq hone hfail ((h.tells.places place).1 hplace).1
      ⟨message, hm, haddressed⟩
    rw [hretries] at hhandled hpublished
    refine ⟨hhandled, hpublished, ?_⟩
    rintro n ⟨a, m, -, hn⟩
    exact h.started_once hq hn

/-! ## A message that fails twice -/

open Engine (Happening happen)

/-- What one line of a script adds to the ledger. -/
def Ledger.happen (w : World) (topic : String) (k : Ledger) (e : Engine) : Happening → Ledger
  | .task t => (e.step? w t).elim k fun e' => k.task topic e e' t
  | .act a => k.act topic e (e.act a) a
  | .pass _ => k

/-- What a script adds to the ledger. -/
def Ledger.play (w : World) (topic : String) : List Happening → Ledger → Engine → Ledger
  | [], k, _ => k
  | line :: script, k, e =>
    Ledger.play w topic script (k.happen w topic e line) (Engine.happen w e line)

/-- All lines of a script may happen, and all claims go on. -/
def Engine.AllFeed (w : World) (topic : String) (e : Engine) : List Happening → Prop
  | [] => True
  | line :: script => line.Serves topic e ∧ (happen w e line).Steady topic ∧
    (happen w e line).AllFeed w topic script

instance decidableAllFeed (w : World) (topic : String) :
    (script : List Happening) → (e : Engine) → Decidable (e.AllFeed w topic script)
  | [], _ => inferInstanceAs (Decidable True)
  | line :: script, e =>
    haveI := decidableAllFeed w topic script (happen w e line)
    inferInstanceAs (Decidable (line.Serves topic e ∧ (happen w e line).Steady topic ∧ _))

/-- A script leads from such an engine to such an engine. -/
theorem Feeding.play (h : Feeding w topic k e) {script : List Happening}
    (hs : e.AllFeed w topic script) :
    Feeding w topic (Ledger.play w topic script k e) (Engine.play w e script) := by
  induction script generalizing k e with
  | nil => exact h
  | cons line script ih =>
    obtain ⟨hserves, hsteady, hs⟩ := hs
    refine ih ?_ hs
    cases line with
    | task t =>
      rw [happen] at hsteady ⊢
      rw [Ledger.happen]
      rcases ht : e.step? w t with _ | e'
      · exact h
      · rw [ht] at hsteady
        exact h.step (.task t ht) hsteady
    | act a => exact h.step (.act a hserves) hsteady
    | pass millis => exact h.step (.tick _ (Nat.le_add_right _ _)) hsteady

/-- If no task that there is can go on, none can. -/
theorem Engine.stuck_of_tasks (h : ∀ t ∈ e.tasks, (e.step? w t).isNone = true) (t : TaskId) :
    e.step? w t = none := by
  by_cases ht : t ∈ e.tasks
  · exact Option.isNone_iff_eq_none.1 (h t ht)
  · cases t with
    | member m =>
      have hnone : e.members[m]? = none := by simpa [tasks] using ht
      simp only [step?, stepMember?, hnone]
    | loop i =>
      have hnone : e.loops[i]? = none := by simpa [tasks] using ht
      simp only [step?, stepLoop?, hnone]
    | handling n =>
      have hnone : e.handlings[n]? = none := by simpa [tasks] using ht
      simp only [step?, stepHandling?, hnone]

/-- A message with a count that cannot be read comes in and fails, is published again, and fails again. -/
def failsTwice : List Happening :=
  [.act (.createTopic "t" 1), .act (.start .retrying), .task (.member 0), .task (.member 0),
    .act (.deliver ⟨"t", 0⟩ .empty ⟨[(Headers.retryKey, "x")]⟩),
    .task (.loop 0), .task (.handling 0), .task (.loop 0), .task (.handling 1)]

theorem feeding_failsTwice : Feeding .failing "t" (Ledger.play .failing "t" failsTwice {} {})
    (Engine.play .failing {} failsTwice) :=
  Feeding.new.play (by decide +kernel)

/-- Nobody can go on then. -/
theorem isQuiet_failsTwice : (Engine.play .failing {} failsTwice).IsQuiet .failing :=
  ⟨Engine.stuck_of_tasks (by decide +kernel), by decide +kernel⟩

theorem oneGroup_failsTwice : (Engine.play .failing {} failsTwice).OneGroup "g" 1 := by
  refine ⟨by decide +kernel, ?_⟩
  have hphase : ((Engine.play .failing {} failsTwice).members[0]?).map Member.phase =
      some (.consuming 0) := by decide +kernel
  obtain ⟨member, hm, hp⟩ := Option.map_eq_some_iff.1 hphase
  exact ⟨member, Array.mem_toList_iff.2 (Array.mem_of_getElem? hm), 0, hp⟩

/-- The message is handled twice and published once, with the count one, and that is all, even if the
run goes on without an end. -/
theorem feedback_ends_failsTwice :
    (∃ k e, Feeding .failing "t" k e ∧ k = ⟨[(⟨"t", 0⟩, 0)], [(1, 0)]⟩ ∧
      (e.chainHandlings "t" k (⟨"t", 0⟩, 0)).encard = 2 ∧
      (e.chainPublished "t" k (⟨"t", 0⟩, 0)).encard = 1 ∧
      ∃ message', e.broker.message? (⟨"t", 0⟩, 1) = some message' ∧
        message'.headers.get? Headers.retryKey = some "1") ∧
    ∃ ks es ts j₀, Endless .failing "t" ks es ts ∧ (∃ j, (es j).handlings.size = 2) ∧
      ∀ j, j₀ ≤ j → ks j = ks j₀ ∧ (∀ i, ts j ≠ some (.loop i)) ∧ ∀ n, ts j ≠ some (.handling n) := by
  obtain ⟨hcounts, hquiet, hchain⟩ := feedback_ends .failing "t"
  have hledger : Ledger.play .failing "t" failsTwice {} {} = ⟨[(⟨"t", 0⟩, 0)], [(1, 0)]⟩ := by
    decide +kernel
  obtain ⟨-, -, hredelivery, -⟩ := hcounts _ _ feeding_failsTwice
  refine ⟨⟨_, _, feeding_failsTwice, hledger, ?_⟩, ?_⟩
  · have hheaders : ((Engine.play .failing {} failsTwice).broker.message? (⟨"t", 0⟩, 0)).map
        Message.headers = some ⟨[(Headers.retryKey, "x")]⟩ := by decide +kernel
    obtain ⟨message, hm, hheaders⟩ := Option.map_eq_some_iff.1 hheaders
    have haddressed : ∀ fresh, (Envelope.ofMessage fresh ⟨"t", 0⟩ message).isAddressedTo "g" = true := by
      intro fresh
      have hgroup : (Envelope.ofMessage fresh ⟨"t", 0⟩ message).group? = none := by
        change (message.headers.get? Headers.groupKey).filter _ = none
        rw [hheaders]
        rfl
      rw [Envelope.isAddressedTo, hgroup]
    have hzero : readRetryTimes (message.headers.get? Headers.retryKey) = 0 := by
      rw [hheaders]
      decide +kernel
    obtain ⟨hhandled, hpublished, -⟩ := hchain _ _ feeding_failsTwice isQuiet_failsTwice
      (by decide +kernel) "g" 1 oneGroup_failsTwice _ message (by decide +kernel) hm haddressed
    rw [hzero] at hhandled hpublished
    refine ⟨hhandled, hpublished, ?_⟩
    -- the count is at most the limit, which is one
    obtain ⟨-, m, member, failed, message', -, hmember, -, hm', hcount, hlimit⟩ :=
      hredelivery 1 0 (by rw [hledger]; exact List.mem_singleton_self _)
    obtain ⟨-, hone⟩ := oneGroup_failsTwice.alike member
      (Array.mem_toList_iff.2 (Array.mem_of_getElem? hmember))
    have hfirst : readRetryTimes (failed.headers.get? Headers.retryKey) = 0 := by omega
    refine ⟨message', hm', ?_⟩
    rw [hcount, hfirst]
    decide
  · obtain ⟨ks, es, ts, j, hendless, hlast⟩ := feeding_failsTwice.exists_endless
    obtain ⟨messages, hmessages⟩ := exists_bound (f := fun i => (ks i).delivered.length) (j := j)
      fun i hi => by rw [(hlast i hi).1, (hlast j (Nat.le_refl j)).1]
    obtain ⟨members, hmembers⟩ := exists_bound (f := fun i => (es i).members.size) (j := j)
      fun i hi => by rw [(hlast i hi).2, (hlast j (Nat.le_refl j)).2]
    obtain ⟨j₀, hj₀⟩ := hquiet ks es ts hendless messages members hmessages hmembers
    refine ⟨ks, es, ts, j₀, hendless, ⟨j, ?_⟩, hj₀⟩
    rw [(hlast j (Nat.le_refl j)).2]
    decide +kernel

end ConsumerGroup
