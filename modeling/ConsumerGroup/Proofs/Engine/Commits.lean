import ConsumerGroup.Proofs.Engine.Turns

/-!
# What a step commits

In one step at most one offset is marked, for one claim loop: that is noted, and the broker commits
it.

* `Engine.Commits` — a step commits what it notes, or it notes no mark and commits nothing.
* `commits_of_step` — all steps are like that.
-/

namespace ConsumerGroup

/-- A step of a claim loop notes one mark at most, and that last. -/
theorem ClaimLoop.Step.marks {i now next : Nat} {l l' : ClaimLoop} {queue queue' : List Message}
    {env? : Option Envelope} {news : List Event} (h : l.Step i now next queue l' queue' env? news) :
    ∃ (mark : Option Offset) (rest : List Event),
      news = (mark.map (.marked i)).toList ++ rest ∧ ∀ j o, .marked j o ∉ rest := by
  cases h with
  | pass => exact ⟨_, _, rfl, by simp⟩
  | _ => exact ⟨none, _, rfl, by simp⟩

/-- A handling that goes on notes no mark by itself. -/
theorem Handling.Step.unmarked {w : World} {n now startedAt : Nat} {r : Redeliverer} {t : Handling}
    {phase? : Option HandlingPhase} {news : List Event}
    (h : t.Step w n now r phase? startedAt news) (j : Nat) (o : Offset) : .marked j o ∉ news :=
  fun hmem => nomatch (h.about _ hmem).1

namespace Engine

variable {w : World} {e e' : Engine}

/-- What a step commits, and what it notes of that. -/
inductive Commits (e e' : Engine) : Prop where
  /-- nothing -/
  | nothing {news : List Event} : e'.events = news ++ e.events → (∀ i o, .marked i o ∉ news) →
      e.broker.Commits none e'.broker → Commits e e'
  /-- an offset for a claim loop -/
  | marks {i : Nat} {l : ClaimLoop} {o : Offset} {news : List Event} : e.loops[i]? = some l →
      e'.events = .marked i o :: (news ++ e.events) → (∀ i o, .marked i o ∉ news) →
      e.broker.Commits (some ⟨l.group, l.source, o⟩) e'.broker → Commits e e'

namespace Commits

/-- Nothing but one mark is noted, if there is one, and that last. -/
theorem of_mark {i : Nat} {l : ClaimLoop} {mark : Option Offset} {news : List Event}
    (hl : e.loops[i]? = some l)
    (hevents : e'.events = (mark.map (.marked i)).toList ++ (news ++ e.events))
    (hnews : ∀ i o, .marked i o ∉ news)
    (hc : e.broker.Commits (mark.map fun o => ⟨l.group, l.source, o⟩) e'.broker) : e.Commits e' := by
  cases mark with
  | none => exact .nothing hevents hnews hc
  | some o => exact .marks hl hevents hnews hc

/-- Nothing is noted. -/
theorem of_events_eq (hevents : e'.events = e.events) (hc : e.broker.Commits none e'.broker) :
    e.Commits e' :=
  .nothing (show e'.events = [] ++ e.events from hevents) (by simp) hc

end Commits

/-- A member marks nothing. -/
theorem MemberStep.commits {m : Nat} {member : Member} {b : Broker} {loops : Array ClaimLoop}
    {phase : MemberPhase} {news : List Event} (h : e.MemberStep m member b loops phase news) :
    (∀ i o, .marked i o ∉ news) ∧ e.broker.Commits none b := by
  have hnext : ∀ {s : SessionId} {answer : Broker.NextClaim} {b : Broker},
      e.broker.nextClaim s = (answer, b) → e.broker.Commits none b := by
    intro s answer b hn
    have hcommits := e.broker.commits_nextClaim s
    rwa [hn] at hcommits
  cases h with
  | joinPanics => exact ⟨by simp, .refl _⟩
  | joins _ hj => exact ⟨by simp, Broker.commits_join hj⟩
  | joinFails _ hj => exact ⟨by simp, Broker.commits_join hj⟩
  | claims _ hn => exact ⟨by simp, hnext hn⟩
  | ends _ hn => exact ⟨by simp, hnext hn⟩
  | restarts => exact ⟨by simp, Broker.commits_dropSession _ _⟩
  | finishes => exact ⟨by simp, Broker.commits_dropSession _ _⟩
  | retries => exact ⟨by simp, .refl _⟩
  | stops _ hb =>
    rcases hb with rfl | ⟨s, rfl⟩
    · exact ⟨by simp, .refl _⟩
    · exact ⟨by simp, Broker.commits_dropSession _ _⟩

/-- What happens from outside commits nothing. -/
theorem commits_act (e : Engine) (a : Act) : e.broker.Commits none (e.act a).broker := by
  cases a with
  | deliver source payload headers =>
    unfold act
    dsimp only
    split
    · rename_i happend
      exact Broker.commits_append happend
    · exact .refl _
  | closeGroup group how => exact Broker.commits_closeGroup _ group how
  | finishSession s how => exact Broker.commits_finishSession _ s how
  | offerClaim s source capacity backlog =>
    unfold act Broker.offerClaim
    dsimp only
    split <;> exact ⟨rfl, rfl⟩
  | release n =>
    obtain ⟨handlings, hrelease, -⟩ := e.releaseHandling_inv n
    rw [act, hrelease]
    exact .refl _
  | _ => exact ⟨rfl, rfl⟩

/-- **Commits.**  A step commits what it notes. -/
theorem commits_of_step (hs : e.Sound) (h : Step w e e') : e.Commits e' := by
  cases h with
  | @task _ t ht =>
    cases t with
    | member m =>
      obtain ⟨member, b, loops, phase, news, -, hstep, hmv⟩ := stepMember?_inv ht
      exact .nothing (events_of_journal_eq hmv.journal_eq) hstep.commits.1
        (hmv.broker_eq ▸ hstep.commits.2)
    | loop i =>
      obtain ⟨l, l', queue, env?, news, hl, hstep, hgoes⟩ :=
        stepLoop?_inv ht (hs.fits i) fun l hl => hs.channel_lt hl
      obtain ⟨mark, rest, rfl, hrest⟩ := hstep.marks
      obtain ⟨mark', hmark, hcommits⟩ := hgoes.commits
      -- the mark that is noted is the one that is committed
      have heq : mark' = mark := by
        refine Option.ext fun o => ?_
        have hmem := hmark i o
        rw [List.mem_append, or_iff_left (hrest i o)] at hmem
        simpa using hmem.symm
      rw [heq] at hcommits
      have hevents := events_of_journal_eq hgoes.journal_eq
      rw [List.append_assoc] at hevents
      exact .of_mark hl hevents hrest hcommits
    | handling n =>
      obtain ⟨t, l, phase?, startedAt, news, -, hl, hstep, hcomes⟩ := stepHandling?_inv ht (hs.loop_lt n)
      have hpublished : ∀ b, (b = e.broker ∨ ∃ record, b = (e.broker.publish e.now record).2) →
          e.broker.Commits none b := by
        rintro b (rfl | ⟨record, rfl⟩)
        · exact .refl _
        · exact Broker.commits_publish _ _ _
      cases hcomes with
      | waits hh =>
        obtain ⟨b, hb, heq⟩ := hh.broker
        exact .nothing (events_of_journal_eq hh.journal_eq) hstep.unmarked (heq ▸ hpublished b hb)
      | @completes _ mark _ _ hh =>
        obtain ⟨b, hb, heq⟩ := hh.broker
        have hevents := events_of_journal_eq hh.journal_eq
        rw [List.append_assoc] at hevents
        refine .of_mark hl hevents ?_ ?_
        · intro i o hmem
          exact hstep.unmarked i o ((List.mem_cons.1 hmem).resolve_left nofun)
        · rw [heq]
          cases mark with
          | none => exact hpublished b hb
          | some o => exact (hpublished b hb).after (.mark _ _ _ _)
  | act a => exact .of_events_eq (events_act e a) (commits_act e a)
  | tick t _ => exact .of_events_eq rfl (.refl _)

end Engine

end ConsumerGroup
