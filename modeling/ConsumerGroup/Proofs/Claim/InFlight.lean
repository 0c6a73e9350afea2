import ConsumerGroup.Proofs.Claim.Accounts

/-!
# Messages in flight, tokens and handlings

* `Reachable.exact` — the watermarks of a claim are exact.
* `Reachable.tracked` — with different offsets, the tracker holds the messages of the handlings that
  are not done.  So the tokens, the tracker and these handlings are equally many: `Reachable.held_perm`
  and `Reachable.keys_perm`.
* `Move.stopped`, `stopped_of_moves` — a loop that has stopped takes no message and starts no handling,
  so a message that waited for a token then is left for good.
* `Reachable.causes` — a mark is made for a message that was passed over or completed just before.
-/

namespace ConsumerGroup

/-! ## What steps do to the tracker -/

namespace Tracker

variable {α : Type}

theorem inFlight_skip (t : Tracker α) (o : Offset) : (t.skip o).2.inFlight = t.inFlight := by
  rw [skip_eq]
  split <;> rfl

theorem count_eq (t : Tracker α) : t.count = t.inFlight.keys.length := by
  rw [count, Table.size, Table.keys, List.length_map]

end Tracker

namespace ClaimLoop

variable {i now next : Nat} {l l' : ClaimLoop} {queue queue' : List Message} {env? : Option Envelope}
  {news : List Event}

/-- A message is entered for each handling that is started, and for no other. -/
theorem Step.tracker_eq (h : l.Step i now next queue l' queue' env? news) :
    (∃ env, env? = some env ∧ l'.tracker = l.tracker.enter env.offset env) ∨
      env? = none ∧ (l'.tracker = l.tracker ∨ ∃ o, l'.tracker = (l.tracker.skip o).2) := by
  cases h with
  | pass _ _ hskip => exact Or.inr ⟨rfl, Or.inr ⟨_, (congrArg Prod.snd hskip).symm⟩⟩
  | crash _ _ hskip => exact Or.inr ⟨rfl, Or.inr ⟨_, (congrArg Prod.snd hskip).symm⟩⟩
  | enter => exact Or.inl ⟨_, rfl, rfl⟩
  | unpark => exact Or.inl ⟨_, rfl, rfl⟩
  | _ => exact Or.inr ⟨rfl, Or.inl rfl⟩

theorem Step.exact (h : l.Step i now next queue l' queue' env? news) (he : l.tracker.Exact) :
    l'.tracker.Exact := by
  rcases h.tracker_eq with ⟨env, -, heq⟩ | ⟨-, heq | ⟨o, heq⟩⟩
  · exact heq ▸ he.enter _ _
  · exact heq ▸ he
  · exact heq ▸ he.skip o

theorem Completes.exact {n : Nat} {o : Offset} {mark : Option Offset}
    (h : l.Completes n o l' mark) (he : l.tracker.Exact) : l'.tracker.Exact := by
  cases h with
  | stray => exact he
  | done hc _ => exact he.complete hc

end ClaimLoop

namespace ClaimView

variable {w : World} {i : Nat} {v v' : ClaimView}

/-- The watermarks of a claim are exact. -/
theorem Reachable.exact (hr : Reachable w i v) : v.loop.tracker.Exact := by
  induction hr with
  | new hn =>
    obtain ⟨member, m, claim, hl⟩ := hn.loop_eq
    rw [hl]
    exact Tracker.exact_empty
  | move _ hmove ih =>
    cases hmove with
    | goes hstep => exact hstep.exact ih
    | enters hstep => exact hstep.exact ih
    | handles _ hh =>
      cases hh with
      | completes _ hc => exact hc.exact ih
      | _ => exact ih
    | _ => exact ih

/-- Nothing is ever struck from the journal. -/
theorem Move.events_suffix (h : Move w i v v') : v.events <:+ v'.events := by
  cases h with
  | arrives => exact List.suffix_refl _
  | told => exact List.suffix_refl _
  | _ => exact List.suffix_append _ _

theorem Move.nodup_taken (h : Move w i v v') (hd : (v'.taken i).Nodup) : (v.taken i).Nodup :=
  hd.sublist (h.events_suffix.filterMap _).sublist

/-! ## The tracker holds what is not done -/

/-- The tracker holds the messages of the handlings that are not done. -/
def Tracked (v : ClaimView) : Prop :=
  ∀ o, o ∈ v.loop.tracker.inFlight.keys ↔
    ∃ n t, v.handling? n = some t ∧ t.phase ≠ .done ∧ t.envelope.offset = o

section

variable {now next n : Nat} {l l' : ClaimLoop} {arrived queue queue' : List Message}
  {handling? : Nat → Option Handling} {events news : List Event} {env : Envelope} {t t' : Handling}

/-- A message that gets a handling is entered. -/
theorem Tracked.enters (h : Tracked ⟨l, arrived, queue, handling?, next, events⟩)
    (hnum : Numbered i ⟨l, arrived, queue, handling?, next, events⟩)
    (hstep : l.Step i now next queue l' queue' (some env) news) :
    Tracked ⟨l', arrived, queue',
      Function.update handling? next (some { loop := i, envelope := env }), next + 1,
      news ++ events⟩ := by
  intro o
  rcases hstep.tracker_eq with ⟨env', henv, heq⟩ | ⟨heq, -⟩
  · obtain rfl := Option.some.inj henv
    rw [heq, Tracker.mem_keys_enter, h o]
    simp only [update_eq_some]
    constructor
    · rintro (rfl | ⟨n, t, ht, hp, ho⟩)
      · exact ⟨next, _, Or.inl ⟨rfl, rfl⟩, nofun, rfl⟩
      · exact ⟨n, t, Or.inr ⟨Nat.ne_of_lt (hnum.handling_lt n t ht), ht⟩, hp, ho⟩
    · rintro ⟨n, t, ⟨-, rfl⟩ | ⟨-, ht⟩, hp, ho⟩
      · exact Or.inl ho.symm
      · exact Or.inr ⟨n, t, ht, hp, ho⟩
  · cases heq

/-- A message leaves the tracker when it is completed. -/
theorem Tracked.handles (h : Tracked ⟨l, arrived, queue, handling?, next, events⟩)
    (hunique : ∀ {k s}, handling? k = some s → s.envelope.offset = t.envelope.offset → k = n)
    (ht : handling? n = some t) (hh : Handles w i n l t t' l' news) :
    Tracked ⟨l', arrived, queue, Function.update handling? n (some t'), next, news ++ events⟩ := by
  have hdone := hh.phase_eq.1
  have hsame := hh.same.2.1
  -- a handling that does not complete its message leaves the tracker alone
  have hstays : t'.phase ≠ .done → l'.tracker = l.tracker →
      Tracked ⟨l', arrived, queue, Function.update handling? n (some t'), next,
        news ++ events⟩ := by
    intro hp htracker o
    simp only [htracker, update_eq_some]
    rw [h o]
    constructor
    · rintro ⟨k, s, hs, hps, ho⟩
      by_cases hk : k = n
      · subst hk
        obtain rfl := Option.some.inj (ht.symm.trans hs)
        exact ⟨k, t', Or.inl ⟨rfl, rfl⟩, hp, hsame ▸ ho⟩
      · exact ⟨k, s, Or.inr ⟨hk, hs⟩, hps, ho⟩
    · rintro ⟨k, s, ⟨rfl, rfl⟩ | ⟨-, hs⟩, hps, ho⟩
      · exact ⟨k, t, ht, hdone, hsame ▸ ho⟩
      · exact ⟨k, s, hs, hps, ho⟩
  cases hh with
  | released => exact hstays nofun rfl
  | waits hstep => exact hstays (hstep.phase_eq.2.1 _ rfl).2 rfl
  | completes _ hc =>
    have hmem : t.envelope.offset ∈ l.tracker.inFlight.keys := (h _).2 ⟨n, t, ht, hdone, rfl⟩
    cases hc with
    | stray hnone => exact absurd hmem (Tracker.complete_eq_none_iff.1 hnone)
    | done hc _ =>
      intro o
      simp only [Tracker.mem_keys_of_complete hc, update_eq_some]
      rw [h o]
      constructor
      · rintro ⟨⟨k, s, hs, hps, rfl⟩, hne⟩
        refine ⟨k, s, Or.inr ⟨?_, hs⟩, hps, rfl⟩
        rintro rfl
        exact hne (congrArg (·.envelope.offset) (Option.some.inj (hs.symm.trans ht)))
      · rintro ⟨k, s, ⟨-, rfl⟩ | ⟨hk, hs⟩, hps, rfl⟩
        · exact absurd rfl hps
        · exact ⟨⟨k, s, hs, hps, rfl⟩, fun ho => hk (hunique hs ho)⟩

end

theorem Reachable.tracked (hr : Reachable w i v) (hd : (v.taken i).Nodup) : v.Tracked := by
  induction hr with
  | new hn =>
    obtain ⟨member, m, claim, hl⟩ := hn.loop_eq
    have hkeys : (member.loopFor m claim).tracker.inFlight.keys = [] := rfl
    intro o
    simp [hl, hkeys, hn.idle]
  | @move v v' hr hmove ih =>
    have hd₀ := hmove.nodup_taken hd
    have htracked := ih hd₀
    cases hmove with
    | arrives ms => exact htracked
    | told _ _ => exact htracked
    | elsewhere _ _ => exact htracked
    | goes hstep =>
      intro o
      rcases hstep.tracker_eq with ⟨_, heq, -⟩ | ⟨-, heq | ⟨o', heq⟩⟩
      · cases heq
      · exact heq ▸ htracked o
      · rw [heq, Tracker.inFlight_skip]
        exact htracked o
    | enters hstep => exact htracked.enters hr.numbered hstep
    | handles ht hh =>
      exact htracked.handles (fun hs ho => hr.handling_unique hd₀ hs ht ho) ht hh

/-- The numbers of the handlings that are not done. -/
def running (v : ClaimView) : List Nat :=
  (List.range v.next).filter fun n => (v.handling? n).any fun t => t.phase ≠ .done

theorem mem_running (hn : v.Numbered i) {n : Nat} :
    n ∈ v.running ↔ ∃ t, v.handling? n = some t ∧ t.phase ≠ .done := by
  simp only [running, List.mem_filter, List.mem_range, Option.any_eq_true, decide_eq_true_eq]
  exact ⟨And.right, fun ⟨t, ht, hp⟩ => ⟨hn.handling_lt n t ht, t, ht, hp⟩⟩

theorem nodup_running (v : ClaimView) : v.running.Nodup := List.nodup_range.filter _

/-- The tokens are held by the handlings that are not done. -/
theorem Reachable.held_perm (hr : Reachable w i v) :
    v.loop.pool.held.Perm (v.running.map .handling) := by
  have hnodup : (v.running.map PoolUser.handling).Nodup :=
    v.nodup_running.map fun _ _ => PoolUser.handling.inj
  rw [List.perm_ext_iff_of_nodup hr.tokens.nodup hnodup]
  intro u
  rw [hr.tokens.mem_iff, List.mem_map]
  constructor
  · rintro ⟨n, t, rfl, ht, hp⟩
    exact ⟨n, (mem_running hr.numbered).2 ⟨t, ht, hp⟩, rfl⟩
  · rintro ⟨n, hn, rfl⟩
    obtain ⟨t, ht, hp⟩ := (mem_running hr.numbered).1 hn
    exact ⟨n, t, rfl, ht, hp⟩

/-- With different offsets, as many messages are in flight as there are handlings that are not done. -/
theorem Reachable.count_eq (hr : Reachable w i v) (hd : (v.taken i).Nodup) :
    v.loop.tracker.count = v.running.length := by
  rw [Tracker.count_eq]
  have hkeys : v.loop.tracker.inFlight.keys.Perm
      (v.running.filterMap fun n => (v.handling? n).map (·.envelope.offset)) := by
    refine (List.perm_ext_iff_of_nodup hr.exact.nodup ?_).2 ?_
    · refine List.Nodup.filterMap ?_ v.nodup_running
      intro n k o hn hk
      obtain ⟨t, ht, ho⟩ := Option.map_eq_some_iff.1 hn
      obtain ⟨s, hs, ho'⟩ := Option.map_eq_some_iff.1 hk
      exact hr.handling_unique hd ht hs (ho.trans ho'.symm)
    · intro o
      rw [hr.tracked hd o, List.mem_filterMap]
      constructor
      · rintro ⟨n, t, ht, hp, rfl⟩
        exact ⟨n, (mem_running hr.numbered).2 ⟨t, ht, hp⟩, by rw [ht, Option.map_some]⟩
      · rintro ⟨n, hn, ho⟩
        obtain ⟨t, ht, hp⟩ := (mem_running hr.numbered).1 hn
        rw [ht, Option.map_some] at ho
        exact ⟨n, t, ht, hp, Option.some.inj ho⟩
  rw [hkeys.length_eq]
  apply List.filterMap_length_eq_length.2
  intro n hn
  obtain ⟨t, ht, -⟩ := (mem_running hr.numbered).1 hn
  rw [ht]
  rfl

/-! ## After a loop has stopped -/

end ClaimView

/-- A loop takes no more messages: it was told to stop, or waits for its handlings, or has ended. -/
def ClaimLoop.IsStopped (l : ClaimLoop) : Prop :=
  l.cancelled = true ∨ l.aborted = true ∨ l.phase ≠ .receiving ∧ ∀ env, l.phase ≠ .parked env

/-- Once a loop has stopped, all it does is wait and end. -/
theorem ClaimLoop.IsStopped.step {i now next : Nat} {l l' : ClaimLoop} {queue queue' : List Message}
    {env? : Option Envelope} {news : List Event} (hs : l.IsStopped)
    (h : l.Step i now next queue l' queue' env? news) :
    l'.IsStopped ∧ env? = none ∧ ∀ event ∈ news, ∃ how, event = .ended i how := by
  have hnot : ¬ l.IsTaking := by
    rintro ⟨hp, hc, ha⟩
    rcases hs with hs | hs | ⟨hs, -⟩
    · exact nomatch hc.symm.trans hs
    · exact nomatch ha.symm.trans hs
    · exact hs hp
  cases h with
  | pass ht => exact absurd ht hnot
  | crash ht => exact absurd ht hnot
  | enter ht => exact absurd ht hnot
  | park ht => exact absurd ht hnot
  | unpark hp hc ha =>
    rcases hs with hs | hs | ⟨-, hs⟩
    · exact nomatch hc.symm.trans hs
    · exact nomatch ha.symm.trans hs
    · exact absurd hp (hs _)
  | drain => exact ⟨Or.inr (Or.inr (by simp)), rfl, by simp⟩
  | finish => exact ⟨Or.inr (Or.inr (by simp)), rfl, by simp⟩

namespace ClaimView

variable {w : World} {i : Nat} {v v' : ClaimView}

/-- What has been taken, passed over and entered is what it was. -/
structure SameAccounts (i : Nat) (v v' : ClaimView) : Prop where
  /-- no message was taken -/
  taken_eq : v'.taken i = v.taken i
  /-- none was passed over -/
  skipped_eq : v'.skipped i = v.skipped i
  /-- no handling was started -/
  entered_eq : v'.entered i = v.entered i

theorem SameAccounts.of_nil {news : List Event} (hevents : v'.events = news ++ v.events)
    (hnews : news.filterMap (Event.taken? i) = [] ∧ news.filterMap (Event.skipped? i) = [] ∧
      news.filterMap (Event.entered? i) = []) : SameAccounts i v v' := by
  obtain ⟨ht, hs, he⟩ := hnews
  refine ⟨?_, ?_, ?_⟩
  · rw [taken, hevents, List.filterMap_append, ht, List.nil_append, taken]
  · rw [skipped, hevents, List.filterMap_append, hs, List.nil_append, skipped]
  · rw [entered, hevents, List.filterMap_append, he, List.nil_append, entered]

/-- A loop that has stopped stays so, and takes no message any more. -/
theorem Move.stopped (h : Move w i v v') (hs : v.loop.IsStopped) :
    v'.loop.IsStopped ∧ SameAccounts i v v' := by
  have hends : ∀ {news : List Event}, (∀ event ∈ news, ∃ how, event = .ended i how) →
      news.filterMap (Event.taken? i) = [] ∧ news.filterMap (Event.skipped? i) = [] ∧
        news.filterMap (Event.entered? i) = [] := by
    intro news hnews
    simp only [List.filterMap_eq_nil_iff]
    refine ⟨fun event he => ?_, fun event he => ?_, fun event he => ?_⟩
    all_goals
      obtain ⟨how, rfl⟩ := hnews event he
      rfl
  cases h with
  | arrives ms => exact ⟨hs, rfl, rfl, rfl⟩
  | told hc ha => exact ⟨hs.imp hc (Or.imp_left ha), rfl, rfl, rfl⟩
  | elsewhere _ hnews =>
    exact ⟨hs, .of_nil rfl (filterMap_elsewhere fun event he => (hnews event he).1)⟩
  | goes hstep =>
    obtain ⟨hs', -, hnews⟩ := hs.step hstep
    exact ⟨hs', .of_nil rfl (hends hnews)⟩
  | enters hstep =>
    obtain ⟨-, hnone, -⟩ := hs.step hstep
    cases hnone
  | handles _ hh =>
    refine ⟨?_, .of_nil rfl hh.filterMap_eq_nil⟩
    cases hh with
    | completes _ hc => cases hc <;> exact hs
    | _ => exact hs

theorem stopped_of_moves (hm : Relation.ReflTransGen (Move w i) v v') (hs : v.loop.IsStopped) :
    v'.loop.IsStopped ∧ SameAccounts i v v' := by
  induction hm with
  | refl => exact ⟨hs, rfl, rfl, rfl⟩
  | tail _ hmove ih =>
    obtain ⟨hs', ht, hk, he⟩ := ih
    obtain ⟨hs'', ht', hk', he'⟩ := hmove.stopped hs'
    exact ⟨hs'', ht'.trans ht, hk'.trans hk, he'.trans he⟩

/-! ## What marks are made for -/

/-- The mark `c` was made for the message at offset `o`: just before, that message was passed over, or
a handling of it was completed. -/
def MarkedFor (i : Nat) (v : ClaimView) (o c : Offset) : Prop :=
  (∃ earlier, .marked i c :: .skipped i o :: earlier <:+ v.events) ∨
    ∃ n earlier, .marked i c :: .completed n :: earlier <:+ v.events ∧ .entered i o n ∈ v.events

theorem MarkedFor.append {o c : Offset} {news : List Event} (h : v.MarkedFor i o c)
    (hevents : v'.events = news ++ v.events) : v'.MarkedFor i o c := by
  rcases h with ⟨earlier, hsuffix⟩ | ⟨n, earlier, hsuffix, hmem⟩
  · exact Or.inl ⟨earlier, hevents ▸ List.suffix_append_of_suffix hsuffix⟩
  · refine Or.inr ⟨n, earlier, hevents ▸ List.suffix_append_of_suffix hsuffix, ?_⟩
    exact hevents ▸ List.mem_append_right _ hmem

/-- Marks are made for messages that were passed over or handled, and for no other. -/
theorem MarkedFor.mem {o c : Offset} (h : v.MarkedFor i o c) : o ∈ v.skipped i ∨ o ∈ v.entered i := by
  rcases h with ⟨earlier, hsuffix⟩ | ⟨n, -, -, hmem⟩
  · exact Or.inl (mem_skipped.2 (hsuffix.subset (List.mem_cons_of_mem _ List.mem_cons_self)))
  · exact Or.inr (mem_entered.2 ⟨n, hmem⟩)

/-- A mark that a step of the loop makes is made for the message that it passes over. -/
theorem marked_of_step {now next : Nat} {l l' : ClaimLoop} {queue queue' : List Message}
    {env? : Option Envelope} {news : List Event} {c : Offset}
    (h : l.Step i now next queue l' queue' env? news) (hc : .marked i c ∈ news) :
    ∃ o, news = [.marked i c, .skipped i o, .taken i o] ∧ queue = queue.take 1 ++ queue' ∧
      l.tracker.skip o = (some c, l'.tracker) := by
  cases h with
  | @pass m rest fresh due tracker ht haddr hskip =>
    cases due with
    | none => simp at hc
    | some due =>
      obtain rfl : c = due := by simpa using hc
      exact ⟨m.offset, rfl, rfl, hskip⟩
  | _ => simp at hc

/-- A mark that a handling makes is made for its message, which it has completed. -/
theorem marked_of_handles {n : Nat} {l l' : ClaimLoop} {t t' : Handling} {news : List Event}
    {c : Offset} (h : Handles w i n l t t' l' news) (hc : .marked i c ∈ news) :
    ∃ rest, news = .marked i c :: .completed n :: rest ∧ (∀ event ∈ rest, event.claim? = none) ∧
      ∃ completion, l.tracker.complete t.envelope.offset = some (completion, l'.tracker) ∧
        completion.commit? = some c := by
  cases h with
  | released => cases hc
  | waits hstep => exact absurd (hstep.about _ hc).1 (by simp [Event.claim?])
  | @completes _ _ _ mark rest hstep hcompletes =>
    have habout : ∀ event ∈ rest, event.claim? = none := fun event he => (hstep.about event he).1
    obtain rfl : mark = some c := by
      rcases List.mem_append.1 hc with hmark | hrest
      · obtain ⟨c', rfl, hc'⟩ := Option.map_eq_some_iff.1 (Option.mem_toList.1 hmark)
        rw [(Event.marked.inj hc').2]
      · rcases List.mem_cons.1 hrest with heq | hrest
        · cases heq
        · exact absurd (habout _ hrest) (by simp [Event.claim?])
    refine ⟨rest, rfl, habout, ?_⟩
    cases hcompletes with
    | done hcomplete hmark => exact ⟨_, hcomplete, (hmark.resolve_right (by simp)).symm⟩

/-- Every mark is made for some message, and passes it. -/
theorem Reachable.markedFor (hr : Reachable w i v) {c : Offset} (hc : .marked i c ∈ v.events) :
    ∃ o < c, v.MarkedFor i o c := by
  induction hr with
  | new hn => exact absurd rfl (hn.elsewhere _ hc).1
  | @move v v' hr hmove ih =>
    have hold : ∀ {news : List Event}, v'.events = news ++ v.events → .marked i c ∈ v.events →
        ∃ o < c, v'.MarkedFor i o c := by
      intro news hevents hc
      obtain ⟨o, hlt, ho⟩ := ih hc
      exact ⟨o, hlt, ho.append hevents⟩
    cases hmove with
    | arrives ms => exact ih hc
    | told _ _ => exact ih hc
    | elsewhere _ hnews =>
      exact (List.mem_append.1 hc).elim (fun hc => absurd rfl (hnews _ hc).1) (hold rfl)
    | goes hstep =>
      refine (List.mem_append.1 hc).elim (fun hc => ?_) (hold rfl)
      obtain ⟨o, rfl, -, hskip⟩ := marked_of_step hstep hc
      exact ⟨o, Tracker.lt_of_skip hskip, Or.inl ⟨_, List.suffix_refl _⟩⟩
    | enters hstep =>
      refine (List.mem_append.1 hc).elim (fun hc => ?_) (hold rfl)
      obtain ⟨o, rfl, -, hskip⟩ := marked_of_step hstep hc
      exact ⟨o, Tracker.lt_of_skip hskip, Or.inl ⟨_, List.suffix_refl _⟩⟩
    | @handles _ _ _ _ _ _ n _ news t _ ht hh =>
      refine (List.mem_append.1 hc).elim (fun hc => ?_) (hold rfl)
      obtain ⟨rest, rfl, -, completion, hcomplete, hcommit⟩ := marked_of_handles hh hc
      have hentered := (hr.recorded.entered_iff t.envelope.offset n).2 ⟨t, ht, rfl⟩
      exact ⟨_, Tracker.lt_of_complete hcomplete hcommit,
        Or.inr ⟨n, _, List.suffix_refl _, List.mem_append_right _ hentered⟩⟩

end ClaimView

end ConsumerGroup
