import ConsumerGroup.Publisher
import ConsumerGroup.Redelivery
import Mathlib.Control.Monad.Basic

/-!
# What a producer is handed

A producer is any computation that takes a record and answers.  `noting` makes of it one that also
writes down each record it is handed, so that what a publisher or a redelivery does to its producer
can be said: how often it is called, and with what.

Main statement: `Redeliverer.redeliver_replying`, a redelivery through a producer that gives replies
in order is the redelivery with these replies, and hands over one and the same record each time.
-/

namespace ConsumerGroup

variable {f : Type → Type} [Monad f]

/-- A producer that notes each record it is handed, and then answers. -/
def noting {α : Type} (publish : Record → f α) (record : Record) : StateT (List Record) f α := do
  modify (· ++ [record])
  publish record

theorem run_noting [LawfulMonad f] {α : Type} (publish : Record → f α) (record : Record)
    (handed : List Record) :
    (noting publish record).run handed =
      (fun answer => (answer, handed ++ [record])) <$> publish record := by
  simp [noting]

/-- A producer that gives the replies in order, and takes everything when they are used up. -/
def replying (_ : Record) : StateM (List Reply) Reply :=
  modifyGet fun replies => (replies.headD .accepted, replies.tail)

namespace Redeliverer

/-- Hands a record to a producer until the verdict is final, after `calls` calls and with at most
`more` calls to make. -/
def handOver (publish : Record → f Reply) (source : String) (delay : Nat) (record : Record)
    (calls : Nat) (m : Metrics) : Nat → f (Verdict × Metrics)
  | 0 => pure (.again, m)
  | more + 1 => do
    let reply ← publish record
    let verdict := Verdict.of record.topic delay (calls + 1) reply
    let m := verdict.count m source
    if verdict = .again then
      handOver publish source delay record (calls + 1) m more
    else
      pure (verdict, m)

/-- Redelivers a failed message through a producer. -/
def redeliver (r : Redeliverer) (m : Metrics) (e : Envelope) (publish : Record → f Reply) :
    f (Verdict × Metrics) :=
  match r.plan e with
  | .exhausted =>
    let verdict := Verdict.ended .exhausted
    pure (verdict, verdict.count m e.topic)
  | .publish delay record => handOver publish e.topic delay record 0 m maxPublishCalls

variable {source : String} {delay : Nat} {record : Record}

/-- The replies are judged one by one. -/
theorem runCalls_succ {m : Metrics} {calls more : Nat} {replies : List Reply} {verdict : Verdict}
    (h : Verdict.of record.topic delay (calls + 1) (replies.headD .accepted) = verdict) :
    runCalls m source delay record calls (more + 1) replies =
      if verdict = .again then
        runCalls (verdict.count m source) source delay record (calls + 1) more replies.tail
      else ⟨calls + 1, if replies.headD .accepted = .accepted then [record] else [], verdict,
        replies.tail, verdict.count m source⟩ := by
  subst h
  rfl

theorem run_handOver_succ {m : Metrics} {calls more : Nat} {replies : List Reply}
    {verdict : Verdict} (handed : List Record)
    (h : Verdict.of record.topic delay (calls + 1) (replies.headD .accepted) = verdict) :
    ((handOver (noting replying) source delay record calls m (more + 1)).run handed).run replies =
      ((if verdict = .again then
          handOver (noting replying) source delay record (calls + 1) (verdict.count m source) more
        else pure (verdict, verdict.count m source)).run (handed ++ [record])).run replies.tail := by
  subst h
  rfl

/-- What is handed over is the record, once for each call. -/
theorem handOver_replying (source : String) (delay : Nat) (record : Record) (more calls : Nat)
    (m : Metrics) (replies : List Reply) (handed : List Record) :
    let report := runCalls m source delay record calls more replies
    ∃ k, report.calls = calls + k ∧
      ((handOver (noting replying) source delay record calls m more).run handed).run replies =
        (((report.verdict, report.metrics), handed ++ List.replicate k record), report.left) := by
  induction more generalizing calls m replies handed with
  | zero => exact ⟨0, rfl, by rw [List.replicate_zero, List.append_nil]; rfl⟩
  | succ more ih =>
    obtain ⟨verdict, hverdict⟩ :
        ∃ v, Verdict.of record.topic delay (calls + 1) (replies.headD .accepted) = v := ⟨_, rfl⟩
    rw [runCalls_succ hverdict, run_handOver_succ handed hverdict]
    by_cases hagain : verdict = .again
    · obtain ⟨k, hcalls, hrun⟩ :=
        ih (calls + 1) (verdict.count m source) replies.tail (handed ++ [record])
      rw [if_pos hagain, if_pos hagain]
      refine ⟨k + 1, ?_, ?_⟩
      · rw [hcalls, Nat.add_assoc, Nat.add_comm 1]
      · rw [hrun, List.append_assoc, List.replicate_succ]
        rfl
    · rw [if_neg hagain, if_neg hagain]
      exact ⟨1, rfl, rfl⟩

/-- **A redelivery hands over one record.**  Through a producer that gives replies in order it ends as
it does with these replies, and each call is made with the record that was planned. -/
theorem redeliver_replying (r : Redeliverer) (m : Metrics) (e : Envelope) (replies : List Reply)
    {delay : Nat} {record : Record} (hplan : r.plan e = .publish delay record) :
    let report := r.run m e replies
    ((r.redeliver m e (noting replying)).run []).run replies =
      (((report.verdict, report.metrics), List.replicate report.calls record), report.left) := by
  obtain ⟨k, hcalls, hrun⟩ :=
    handOver_replying e.topic delay record maxPublishCalls 0 m replies []
  simp only [run, redeliver, hplan, hrun, hcalls, Nat.zero_add, List.nil_append]

end Redeliverer

end ConsumerGroup
