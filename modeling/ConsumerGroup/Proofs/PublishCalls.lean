import ConsumerGroup.Proofs.Producers
import Mathlib.Logic.Function.Iterate

/-!
# The calls of a redelivery

A record is handed to the producer again as long as the reply is an error that may pass, three times
in all.  The last reply decides how the redelivery ends and what is counted, and only the last call
can have been the one that was accepted: no message is redelivered twice.

Main statement: `publishes_at_most_once`.
-/

namespace ConsumerGroup

/-! ## Replies -/

/-- The reply is an error that may pass. -/
inductive Reply.MayPass : Reply → Prop where
  | publish (topic reason : String) : MayPass (.refused (.publish topic reason))
  | connection (text : String) : MayPass (.refused (.connection text))
  | session (text : String) : MayPass (.refused (.session text))

namespace Reply

/-- How a redelivery ends whose last reply this is. -/
def closes (topic : String) (delay : Nat) : Reply → Verdict
  | accepted => .ended (.redelivered topic delay)
  | refused error => .ended (.publishFailed error)
  | panicked text => .unwound text

/-- The result under which the calls are counted whose last reply this is; a panic has none. -/
def result? : Reply → Option String
  | accepted => some "success"
  | refused _ => some "exhausted"
  | panicked _ => none

/-- The outcome under which the redelivery is counted whose last reply this is; a panic has none. -/
def outcome? : Reply → Option String
  | accepted => some "redelivered"
  | refused _ => some "publish_failed"
  | panicked _ => none

theorem mayPass_refused_iff {error : BrokerError} :
    (refused error).MayPass ↔ error.isRetriable = true := by
  constructor
  · intro h
    cases h <;> rfl
  · intro h
    cases error with
    | publish topic reason => exact .publish topic reason
    | connection text => exact .connection text
    | session text => exact .session text
    | unknownTopicOrPartition => cases h
    | noProducer => cases h

theorem not_mayPass_accepted : ¬ accepted.MayPass := by
  intro h
  cases h

end Reply

/-- A call is made again after an error that may pass, unless it was the last one; else the reply
closes the redelivery. -/
theorem Verdict.of_cases (topic : String) (delay calls : Nat) (reply : Reply) :
    (of topic delay calls reply = .again ∧ reply.MayPass ∧ calls < maxPublishCalls) ∨
    (of topic delay calls reply = reply.closes topic delay ∧
      (maxPublishCalls ≤ calls ∨ ¬ reply.MayPass)) := by
  cases reply with
  | accepted => exact .inr ⟨rfl, .inr Reply.not_mayPass_accepted⟩
  | panicked text =>
    refine .inr ⟨rfl, .inr fun h => ?_⟩
    cases h
  | refused error =>
    rw [Reply.mayPass_refused_iff]
    simp only [of, Bool.and_eq_true, decide_eq_true_eq]
    split
    · rename_i h
      exact .inl ⟨rfl, h⟩
    · rename_i h
      refine .inr ⟨rfl, ?_⟩
      by_cases hpass : error.isRetriable = true
      · exact .inl (Nat.le_of_not_lt fun hlt => h ⟨hpass, hlt⟩)
      · exact .inr hpass

theorem Reply.closes_ne_again (topic : String) (delay : Nat) (reply : Reply) :
    reply.closes topic delay ≠ .again := by
  cases reply <;> simp [closes]

/-! ## Counts -/

namespace Metrics

/-- Attempts to publish again are counted one by one, and nothing else is touched. -/
theorem recordRetryAttempt_iterate (m : Metrics) (policy : String) (k : Nat) :
    ((·.recordRetryAttempt policy)^[k] m) =
      { m with retries := ((bump · (policy, "attempt"))^[k] m.retries) } := by
  induction k generalizing m with
  | zero => rfl
  | succ k ih => rw [Function.iterate_succ_apply, ih, Function.iterate_succ_apply]; rfl

theorem tally_bump_iterate {κ : Type} [DecidableEq κ] (t : Table κ Nat) (k key : κ) (n : Nat) :
    tally ((bump · k)^[n] t) key = tally t key + if key = k then n else 0 := by
  induction n with
  | zero => simp
  | succ n ih =>
    rw [Function.iterate_succ_apply', tally_bump, ih]
    split <;> omega

end Metrics

/-- `k` calls that are made again are counted as attempts, the last reply under its result and its
outcome, if it has these, and nothing else is touched. -/
theorem Reply.count_closes (m : Metrics) (source topic : String) (delay k : Nat) (reply : Reply) :
    let m' := (reply.closes topic delay).count
      ((·.recordRetryAttempt redeliveryPolicy)^[k] m) source
    (∀ policy result, Metrics.tally m'.retries (policy, result) =
      Metrics.tally m.retries (policy, result) +
        (if policy = redeliveryPolicy ∧ result = "attempt" then k else 0) +
        (if policy = redeliveryPolicy ∧ reply.result? = some result then 1 else 0)) ∧
    (∀ t outcome, Metrics.tally m'.redeliveries (t, outcome) =
      Metrics.tally m.redeliveries (t, outcome) +
        if t = source ∧ reply.outcome? = some outcome then 1 else 0) ∧
    { m' with retries := m.retries, redeliveries := m.redeliveries } = m := by
  rw [Metrics.recordRetryAttempt_iterate]
  cases reply with
  | panicked text =>
    refine ⟨fun policy result => ?_, fun t outcome => ?_, rfl⟩
    · simp [closes, Verdict.count, result?, Metrics.tally_bump_iterate]
    · simp [closes, Verdict.count, outcome?]
  | accepted | refused error =>
    refine ⟨fun policy result => ?_, fun t outcome => ?_, rfl⟩
    · simp [closes, Verdict.count, result?, Metrics.recordRedelivery, Metrics.recordRetrySuccess,
        Metrics.recordRetryExhausted, Metrics.tally_bump, Metrics.tally_bump_iterate, eq_comm]
    · simp [closes, Verdict.count, outcome?, Metrics.recordRedelivery, Metrics.recordRetrySuccess,
        Metrics.recordRetryExhausted, Metrics.tally_bump, RedeliveryOutcome.label, eq_comm]

namespace Redeliverer

/-! ## All calls -/

/-- All that becomes of a record: after `k` errors that may pass the next reply is the last one. -/
theorem runCalls_eq (source : String) (delay : Nat) (record : Record) (m : Metrics)
    (more calls : Nat) (hcalls : calls + more + 1 = maxPublishCalls) (replies : List Reply) :
    ∃ k last, k ≤ more ∧ (∀ i < k, (replies.getD i .accepted).MayPass) ∧
      replies.getD k .accepted = last ∧ (calls + k + 1 = maxPublishCalls ∨ ¬ last.MayPass) ∧
      runCalls m source delay record calls (more + 1) replies =
        ⟨calls + k + 1, if last = .accepted then [record] else [], last.closes record.topic delay,
          replies.drop (k + 1),
          (last.closes record.topic delay).count
            ((·.recordRetryAttempt redeliveryPolicy)^[k] m) source⟩ := by
  obtain ⟨verdict, hverdict⟩ :
      ∃ v, Verdict.of record.topic delay (calls + 1) (replies.headD .accepted) = v := ⟨_, rfl⟩
  have hhead : replies.headD .accepted = replies.getD 0 .accepted := by cases replies <;> rfl
  rw [runCalls_succ hverdict]
  have hcases := Verdict.of_cases record.topic delay (calls + 1) (replies.headD .accepted)
  rw [hverdict, hhead] at hcases
  rcases hcases with ⟨rfl, hpass, hlt⟩ | ⟨rfl, hfinal⟩
  · -- by recursion on the calls that are left: the rest is what the other replies come to
    cases more with
    | zero => omega
    | succ more =>
      have htail : ∀ i, replies.tail.getD i .accepted = replies.getD (i + 1) .accepted := by
        intro i
        cases replies <;> rfl
      obtain ⟨k, last, hk, hpassed, hlast, hfinal, hrun⟩ :=
        runCalls_eq source delay record (m.recordRetryAttempt redeliveryPolicy) more (calls + 1)
          (by omega) replies.tail
      refine ⟨k + 1, last, Nat.succ_le_succ hk, ?_, htail k ▸ hlast, hfinal.imp_left (by omega), ?_⟩
      · intro i hi
        cases i with
        | zero => exact hpass
        | succ i => exact htail i ▸ hpassed i (Nat.lt_of_succ_lt_succ hi)
      · rw [if_pos rfl, Verdict.count, hrun, List.drop_tail, Function.iterate_succ_apply]
        simp only [Nat.add_assoc, Nat.add_comm 1]
  · refine ⟨0, _, Nat.zero_le more, fun i hi => absurd hi (Nat.not_lt_zero i), rfl, ?_, ?_⟩
    · exact hfinal.imp_left (by omega)
    · rw [if_neg (Reply.closes_ne_again _ _ _), hhead, List.drop_one]
      rfl

variable {r : Redeliverer} {e : Envelope} {delay : Nat} {record : Record}

/-- All that becomes of a message that is to be published. -/
theorem run_eq (m : Metrics) (replies : List Reply) (hplan : r.plan e = .publish delay record) :
    ∃ k last, k ≤ 2 ∧ (∀ i < k, (replies.getD i .accepted).MayPass) ∧
      replies.getD k .accepted = last ∧ (k + 1 = 3 ∨ ¬ last.MayPass) ∧
      r.run m e replies =
        ⟨k + 1, if last = .accepted then [record] else [], last.closes record.topic delay,
          replies.drop (k + 1),
          (last.closes record.topic delay).count
            ((·.recordRetryAttempt redeliveryPolicy)^[k] m) e.topic⟩ := by
  have h := runCalls_eq e.topic delay record m 2 0 rfl replies
  simp only [Nat.zero_add] at h
  simp only [run, hplan]
  exact h

/-- **A failed message is published at most once.**  Whatever the replies of the producer are:

* a message whose redeliveries are used up is handed to nobody, and counted as that;
* else the planned record is handed over one to three times, again after each error that may pass and
  not after any other reply;
* the last reply closes the redelivery: it was redelivered, to the planned topic with the planned
  delay, if the record was taken, it failed with the error of the last reply, or it was unwound by a
  panic without an outcome;
* only the last call can have been accepted, and then the message was redelivered;
* counted are the calls that were made again, the result of the last one and the outcome; a panic has
  neither result nor outcome. -/
theorem publishes_at_most_once (r : Redeliverer) (m : Metrics) (e : Envelope)
    (replies : List Reply) :
    let report := r.run m e replies
    let called := ((r.redeliver m e (noting replying)).run []).run replies
    (r.plan e = .exhausted →
      report.calls = 0 ∧ report.published = [] ∧ report.verdict = .ended .exhausted ∧
      report.metrics = m.recordRedelivery e.topic "exhausted" ∧
      called = (((report.verdict, report.metrics), []), replies)) ∧
    ∀ delay record, r.plan e = .publish delay record →
      let reply := fun call => replies.getD (call - 1) .accepted
      let last := reply report.calls
      (1 ≤ report.calls ∧ report.calls ≤ 3) ∧
      called = (((report.verdict, report.metrics), List.replicate report.calls record),
        replies.drop report.calls) ∧
      (∀ call, 1 ≤ call → call < report.calls → (reply call).MayPass) ∧
      (report.calls = 3 ∨ ¬ last.MayPass) ∧
      report.verdict = last.closes record.topic delay ∧
      report.published = (if last = .accepted then [record] else []) ∧
      (∀ call, 1 ≤ call → call ≤ report.calls → reply call = .accepted →
        call = report.calls ∧ report.verdict = .ended (.redelivered record.topic delay)) ∧
      (∀ policy result, Metrics.tally report.metrics.retries (policy, result) =
        Metrics.tally m.retries (policy, result) +
          (if policy = redeliveryPolicy ∧ result = "attempt" then report.calls - 1 else 0) +
          (if policy = redeliveryPolicy ∧ last.result? = some result then 1 else 0)) ∧
      (∀ topic outcome, Metrics.tally report.metrics.redeliveries (topic, outcome) =
        Metrics.tally m.redeliveries (topic, outcome) +
          if topic = e.topic ∧ last.outcome? = some outcome then 1 else 0) ∧
      { report.metrics with retries := m.retries, redeliveries := m.redeliveries } = m := by
  intro report called
  refine ⟨fun hplan => ?_, fun delay record hplan => ?_⟩
  · have hreport : report = ⟨0, [], .ended .exhausted, replies,
        m.recordRedelivery e.topic "exhausted"⟩ := by
      simp only [report, run, hplan]
      rfl
    have hcalled : called = (((report.verdict, report.metrics), []), replies) := by
      simp only [called, redeliver, hplan, hreport]
      rfl
    exact ⟨by rw [hreport], by rw [hreport], by rw [hreport], by rw [hreport], hcalled⟩
  · intro reply last
    obtain ⟨k, reply', hk, hpassed, hreply, hfinal, hrun⟩ := run_eq m replies hplan
    have hcalls : report.calls = k + 1 := congrArg RedeliveryReport.calls hrun
    obtain rfl : reply' = last := by
      simp only [last, reply, hcalls, Nat.add_sub_cancel, hreply]
    have hverdict : report.verdict = last.closes record.topic delay :=
      congrArg RedeliveryReport.verdict hrun
    have hleft : report.left = replies.drop report.calls := by
      rw [hcalls]
      exact congrArg RedeliveryReport.left hrun
    have hmetrics : report.metrics = (last.closes record.topic delay).count
        ((·.recordRetryAttempt redeliveryPolicy)^[k] m) e.topic :=
      congrArg RedeliveryReport.metrics hrun
    obtain ⟨hresults, houtcomes, hframe⟩ := Reply.count_closes m e.topic record.topic delay k last
    rw [← hmetrics] at hresults houtcomes hframe
    have hpass : ∀ call, 1 ≤ call → call < report.calls → (reply call).MayPass := fun call _ h =>
      hpassed (call - 1) (by omega)
    refine ⟨by omega, hleft ▸ redeliver_replying r m e replies hplan, hpass, hcalls ▸ hfinal,
      hverdict, congrArg RedeliveryReport.published hrun, ?_, ?_, houtcomes, hframe⟩
    · intro call h₁ hle haccepted
      rcases Nat.lt_or_eq_of_le hle with hlt | rfl
      · exact absurd (haccepted ▸ hpass call h₁ hlt) Reply.not_mayPass_accepted
      · have hclosed : last = .accepted := haccepted
        rw [hclosed] at hverdict
        exact ⟨rfl, hverdict⟩
    · rw [hcalls, Nat.add_sub_cancel]
      exact hresults

/-- The first call fails, the second one too, and the third is accepted: two attempts, one success and
one redelivery are counted. -/
theorem publishes_at_most_once_thirdCall :
    let r : Redeliverer := ⟨.standard "delay_", 3, ⟨[30, 60]⟩⟩
    let e := Envelope.ofMessage default ⟨"orders", 1⟩ ⟨42, ⟨#[1]⟩, {}, none⟩
    let record : Record :=
      ⟨"delay_30s", ⟨#[1]⟩, ⟨[("retryTimes", "1"), ("traceId", "0"), ("topic", "orders")]⟩⟩
    let replies := [.refused (.connection "down"), .refused (.session "lost"), .accepted]
    let report := r.run {} e replies
    r.plan e = .publish 30 record ∧ report.calls = 3 ∧
      report.verdict = .ended (.redelivered "delay_30s" 30) ∧
      Metrics.tally report.metrics.retries (redeliveryPolicy, "attempt") = 2 ∧
      Metrics.tally report.metrics.retries (redeliveryPolicy, "success") = 1 ∧
      Metrics.tally report.metrics.redeliveries ("orders", "redelivered") = 1 := by
  intro r e record replies report
  have hplan : r.plan e = .publish 30 record := by decide +kernel
  have hcalls : report.calls = 3 := by decide +kernel
  have hlast : replies.getD (report.calls - 1) .accepted = .accepted := by rw [hcalls]; rfl
  obtain ⟨-, -, -, -, hverdict, -, -, hresults, houtcomes, -⟩ :=
    (publishes_at_most_once r {} e replies).2 30 record hplan
  simp only [show (r.run {} e replies).calls = 3 from hcalls] at hresults
  refine ⟨hplan, hcalls, hverdict.trans (congrArg _ hlast), ?_, ?_, ?_⟩
  · exact (hresults redeliveryPolicy "attempt").trans (by decide)
  · exact (hresults redeliveryPolicy "success").trans (by decide)
  · refine (houtcomes "orders" "redelivered").trans ?_
    rw [show (r.run {} e replies).calls = 3 from hcalls]
    decide

/-- After a call that panics neither a success nor a failure is counted, and no redelivery either: the
panic goes on past the place where they are counted. -/
theorem not_counted_after_panic :
    let r : Redeliverer := ⟨.standard "delay_", 3, ⟨[30, 60]⟩⟩
    let e := Envelope.ofMessage default ⟨"orders", 1⟩ ⟨42, ⟨#[1]⟩, {}, none⟩
    let report := r.run {} e [.panicked "producer exploded"]
    (∃ delay record, r.plan e = .publish delay record) ∧ report.calls = 1 ∧
      ¬ (Metrics.tally report.metrics.retries (redeliveryPolicy, "success") +
          Metrics.tally report.metrics.retries (redeliveryPolicy, "exhausted") = 1) ∧
      ¬ ∃ outcome, Metrics.tally report.metrics.redeliveries ("orders", outcome) = 1 := by
  intro r e report
  have hreport : report.calls = 1 ∧ report.metrics.retries = ∅ ∧ report.metrics.redeliveries = ∅ := by
    decide +kernel
  obtain ⟨hcalls, hretries, hredeliveries⟩ := hreport
  refine ⟨⟨_, _, rfl⟩, hcalls, ?_, ?_⟩
  · rw [hretries]
    decide
  · rw [hredeliveries]
    rintro ⟨outcome, houtcome⟩
    cases houtcome

end Redeliverer

end ConsumerGroup
