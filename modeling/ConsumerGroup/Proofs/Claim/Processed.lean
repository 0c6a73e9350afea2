import ConsumerGroup.Proofs.Claim.Records

/-!
# Processed messages

A message is completed only after its handler has returned and, if the handler failed, after the
redelivery has come to its end: the message was redelivered often enough, or the producer was called
until its reply left nothing more to do.  `Reachable.processed` says so of every view of a claim.
-/

namespace ConsumerGroup

/-- The reply to a call of the producer for handling number `n`. -/
def Event.reply? (n : Nat) : Event → Option Reply
  | called h reply => if h = n then some reply else none
  | _ => none

/-- The replies to the calls of the producer for handling number `n`, the latest first. -/
def repliesTo (n : Nat) (events : List Event) : List Reply := events.filterMap (Event.reply? n)

/-- Handling number `n` of a message has come to its end: its handler has returned and, if that failed,
the redelivery has ended. -/
def Processed (r : Redeliverer) (n : Nat) (env : Envelope) (events : List Event) : Prop :=
  .returned n none ∈ events ∨
    ∃ failure, .returned n (some failure) ∈ events ∧
      (r.plan env = .exhausted ∨
        ∃ delay record reply earlier, r.plan env = .publish delay record ∧
          repliesTo n events = reply :: earlier ∧
          Verdict.of record.topic delay (earlier.length + 1) reply ≠ .again)

/-- What the journal tells of a handling fits where it stands. -/
def Handling.Fits (r : Redeliverer) (n : Nat) (t : Handling) (events : List Event) : Prop :=
  match t.phase with
  | .resting calls delay record _ =>
    r.plan t.envelope = .publish delay record ∧ (repliesTo n events).length = calls ∧
      ∃ failure, .returned n (some failure) ∈ events
  | .done => Processed r n t.envelope events
  | _ => repliesTo n events = []

variable {w : World} {i n now : Nat} {r : Redeliverer} {events news : List Event}

theorem repliesTo_append (n : Nat) (news events : List Event) :
    repliesTo n (news ++ events) = repliesTo n news ++ repliesTo n events := List.filterMap_append

/-- What is noted about others is no reply. -/
theorem repliesTo_eq_nil (h : ∀ event ∈ news, event.handling? ≠ some n) : repliesTo n news = [] := by
  apply List.filterMap_eq_nil_iff.2
  intro event he
  have hne := h event he
  cases event <;> simp_all [Event.reply?, Event.handling?]

theorem Processed.append {env : Envelope} (h : Processed r n env events)
    (hnews : repliesTo n news = []) : Processed r n env (news ++ events) := by
  rcases h with h | ⟨failure, h, hplan⟩
  · exact Or.inl (List.mem_append_right _ h)
  · refine Or.inr ⟨failure, List.mem_append_right _ h, ?_⟩
    rw [repliesTo_append, hnews, List.nil_append]
    exact hplan

theorem Handling.Fits.append {t : Handling} (h : t.Fits r n events) (hnews : repliesTo n news = []) :
    t.Fits r n (news ++ events) := by
  rw [Handling.Fits] at h ⊢
  split
  · rename_i hp
    rw [hp] at h
    obtain ⟨hplan, hlen, failure, hmem⟩ := h
    rw [repliesTo_append, hnews, List.nil_append]
    exact ⟨hplan, hlen, failure, List.mem_append_right _ hmem⟩
  · rename_i hp
    rw [hp] at h
    exact h.append hnews
  · rename_i hresting hdone
    rw [repliesTo_append, hnews, List.nil_append]
    split at h
    · rename_i hp
      exact absurd hp (hresting _ _ _ _)
    · rename_i hp
      exact absurd hp hdone
    · exact h

namespace Handling

variable {t : Handling} {startedAt : Nat} {phase? : Option HandlingPhase}

/-- One more call of the producer. -/
theorem Calls.fits {calls delay : Nat} {record : Record}
    (h : Calls w n now calls delay record phase? news)
    (hplan : r.plan t.envelope = .publish delay record)
    (hlen : (repliesTo n events).length = calls)
    (hmem : ∃ failure, .returned n (some failure) ∈ events) :
    (∀ phase, phase? = some phase →
      ({ t with phase, startedAt } : Handling).Fits r n (news ++ events)) ∧
      (phase? = none → Processed r n t.envelope (news ++ events)) := by
  obtain ⟨failure, hmem⟩ := hmem
  cases h with
  | @again reply _ =>
    refine ⟨?_, nofun⟩
    rintro phase hphase
    obtain rfl := Option.some.inj hphase
    refine ⟨hplan, ?_, failure, List.mem_append_right _ hmem⟩
    rw [← hlen]
    simp [repliesTo, Event.reply?]
  | @ended reply hverdict =>
    refine ⟨nofun, fun _ => Or.inr ⟨failure, List.mem_append_right _ hmem, Or.inr ?_⟩⟩
    refine ⟨delay, record, reply, repliesTo n events, hplan, ?_, hlen ▸ hverdict⟩
    simp [repliesTo, Event.reply?]

/-- The rest of the handler's program. -/
theorem Runs.fits {program : Handler.Program} (h : Runs w n now r t.envelope program phase? news)
    (hnone : repliesTo n events = []) :
    (∀ phase, phase? = some phase →
      ({ t with phase, startedAt } : Handling).Fits r n (news ++ events)) ∧
      (phase? = none → Processed r n t.envelope (news ++ events)) := by
  cases h with
  | succeeds => exact ⟨nofun, fun _ => Or.inl List.mem_cons_self⟩
  | @exhausted failure _ hplan =>
    exact ⟨nofun, fun _ => Or.inr ⟨failure, List.mem_cons_self, Or.inl hplan⟩⟩
  | @redelivers failure _ _ _ _ news hplan hcalls =>
    rw [List.append_assoc]
    refine hcalls.fits hplan ?_ ⟨failure, List.mem_cons_self⟩
    rw [repliesTo_append, hnone]
    rfl
  | holds =>
    refine ⟨?_, nofun⟩
    rintro phase hphase
    obtain rfl := Option.some.inj hphase
    exact hnone
  | pauses =>
    refine ⟨?_, nofun⟩
    rintro phase hphase
    obtain rfl := Option.some.inj hphase
    exact hnone

/-- What a handling does keeps the journal fitting. -/
theorem Fits.step (h : t.Fits r n events) (hs : t.Step w n now r phase? startedAt news) :
    (∀ phase, phase? = some phase →
      ({ t with phase, startedAt } : Handling).Fits r n (news ++ events)) ∧
      (phase? = none → Processed r n t.envelope (news ++ events)) := by
  rw [Handling.Fits] at h
  cases hs with
  | starts hp hr =>
    rw [hp] at h
    rw [List.append_assoc]
    apply hr.fits
    rw [repliesTo_append, h]
    rfl
  | wakes hp _ hr =>
    rw [hp] at h
    exact hr.fits h
  | calls hp _ hc =>
    rw [hp] at h
    exact hc.fits h.1 h.2.1 h.2.2

end Handling

namespace ClaimView

variable {v : ClaimView}

theorem Reachable.fits_journal (hr : Reachable w i v) :
    ∀ n t, v.handling? n = some t → t.Fits v.loop.redeliverer n v.events := by
  induction hr with
  | new hn => simp [hn.idle]
  | move hr hmove ih =>
    have hnum := hr.numbered
    cases hmove with
    | arrives ms => exact ih
    | told _ _ => exact ih
    | elsewhere _ hnews =>
      intro n t ht
      refine (ih n t ht).append (repliesTo_eq_nil ?_)
      intro event he hn
      exact nomatch ((hnews event he).2 n hn).1.symm.trans ht
    | goes hstep =>
      intro n t ht
      rw [hstep.sameClaim.redeliverer_eq]
      refine (ih n t ht).append (repliesTo_eq_nil ?_)
      intro event he hn
      exact nomatch (hstep.about event he).2.symm.trans hn
    | enters hstep =>
      intro n t ht
      rw [hstep.sameClaim.redeliverer_eq]
      have hnone : ∀ n, repliesTo n _ = [] := fun n =>
        repliesTo_eq_nil fun event he hn => nomatch (hstep.about event he).2.symm.trans hn
      rcases update_eq_some.1 ht with ⟨rfl, rfl⟩ | ⟨-, ht⟩
      · -- nothing was noted about a number that is given out only now
        change repliesTo _ _ = []
        rw [repliesTo_append, hnone, List.nil_append]
        exact repliesTo_eq_nil fun event he hn => Nat.lt_irrefl _ (hnum.event_lt event he _ hn)
      · exact (ih n t ht).append (hnone n)
    | @handles l l' _ _ _ _ n _ news t t' ht hh =>
      intro k s hs
      rw [hh.same.2.2.redeliverer_eq]
      rcases update_eq_some.1 hs with ⟨rfl, rfl⟩ | ⟨hk, hs⟩
      · have hfits := ih k t ht
        cases hh with
        | released hp =>
          rw [Handling.Fits, hp] at hfits
          exact hfits
        | waits hstep => exact (hfits.step hstep).1 _ rfl
        | @completes _ _ _ mark news hstep _ =>
          have hprocessed := (hfits.step hstep).2 rfl
          have hmark : repliesTo k ((mark.map (Event.marked i)).toList ++ [.completed k]) = [] := by
            cases mark <;> rfl
          have happend := hprocessed.append hmark
          rw [List.append_assoc, List.singleton_append] at happend
          rw [List.append_assoc, List.cons_append]
          exact happend
      · refine (ih k s hs).append (repliesTo_eq_nil ?_)
        intro event he hn
        rcases hh.about event he with ⟨-, hn'⟩ | ⟨-, hn'⟩
        · exact hk (Option.some.inj (hn.symm.trans hn'))
        · exact nomatch hn'.symm.trans hn

/-- **Processed.**  A message is completed after its handler has returned and its redelivery, if there
is one, has ended. -/
theorem Reachable.processed (hr : Reachable w i v) {t : Handling} (ht : v.handling? n = some t)
    (hc : .completed n ∈ v.events) : Processed v.loop.redeliverer n t.envelope v.events := by
  have hfits := hr.fits_journal n t ht
  rw [Handling.Fits, (hr.recorded.completed_iff n t ht).1 hc] at hfits
  exact hfits

end ClaimView

end ConsumerGroup
