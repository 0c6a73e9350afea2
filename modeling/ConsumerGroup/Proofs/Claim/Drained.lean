import ConsumerGroup.Proofs.Claim.Completions

/-!
# A claim that is drained

A drain asks for all tokens at once.  When it has them no handling has one, so all handlings are done
and nothing is in flight; and that stays so, because a loop that has ended starts no handling.

* `Reachable.held_of_drained` — after a drain no handling holds a token.
* `Reachable.running_of_mem` — whatever is in flight has a handling that is not done.
* `Reachable.idle_of_drained` — after a drain nothing is in flight, and all handlings are done.
-/

namespace ConsumerGroup

/-! ## Tokens -/

namespace TokenPool

variable {ι : Type}

/-- One request can ask for all tokens of a claim. -/
theorem drainSize_eq {p : TokenPool ι} (h : p.capacity ≤ maxConcurrency) :
    p.drainSize = p.capacity := by
  rw [maxConcurrency] at h
  exact Nat.min_eq_left (by omega)

/-- When all tokens are on their way, nobody holds one. -/
theorem Balanced.held_eq_nil {p : TokenPool ι} {k : Nat} (h : p.Balanced (p.capacity + k)) :
    p.held = [] := by
  rw [Balanced] at h
  exact List.eq_nil_of_length_eq_zero (by omega)

end TokenPool

/-- A loop that ends because it has all tokens leaves none with a handling. -/
theorem ClaimLoop.Ends.held_eq_nil {now : Nat} {l : ClaimLoop} {queue : List Message}
    {pool : TokenPool PoolUser} (h : l.Ends now queue .drained pool) (hfit : l.PoolFits)
    (hcap : l.pool.capacity ≤ maxConcurrency) : pool.held = [] := by
  obtain ⟨-, -, hheld, -⟩ := h.quiet hfit
  rw [hheld]
  cases h with
  | @atOnce p p' _ hc hr =>
    obtain ⟨hq, hopen, hb, hheld, hcap'⟩ := hc.quiet hfit
    have hheld' : p'.held = p.held := by rw [← TokenPool.held_request p .loop p.drainSize, hr]
    have hcap'' : p'.capacity = p.capacity := by
      rw [← TokenPool.capacity_request p .loop p.drainSize, hr]
    rcases hq.request hopen hb hr with ⟨-, ⟨-, -, -, hb'⟩ | ⟨ha, -⟩⟩
    · rw [TokenPool.drainSize_eq (hcap' ▸ hcap), ← hcap''] at hb'
      rw [← hheld, ← hheld', hb'.held_eq_nil]
    · cases ha
  | drained _ hp hr =>
    have hasks := hfit.asks
    rw [hp] at hasks
    rcases hasks.1.resume hasks.2 hfit.balanced hr with ⟨-, -, hheld, hcap', -, hb⟩ | ⟨ha, -⟩
    · rw [TokenPool.drainSize_eq hcap, ← hcap'] at hb
      rw [← hheld, hb.held_eq_nil]
    · cases ha

namespace ClaimView

variable {w : World} {i : Nat} {v : ClaimView}

/-- No claim has more tokens than a consumer may have. -/
theorem Reachable.capacity_le (hr : Reachable w i v) : v.loop.pool.capacity ≤ maxConcurrency := by
  induction hr with
  | new hn =>
    obtain ⟨member, m, claim, hl⟩ := hn.loop_eq
    have hcap : (member.loopFor m claim).pool.capacity = member.config.concurrency :=
      Nat.max_eq_left member.config.concurrency_pos
    rw [hl, hcap]
    exact member.config.concurrency_le
  | move hr hmove ih =>
    cases hmove with
    | arrives ms => exact ih
    | told _ _ => exact ih
    | elsewhere _ _ => exact ih
    | goes hstep => exact Nat.le_trans (Nat.le_of_eq (hstep.capacity_eq hr.fits)) ih
    | enters hstep => exact Nat.le_trans (Nat.le_of_eq (hstep.capacity_eq hr.fits)) ih
    | handles _ hh =>
      cases hh with
      | completes _ hc =>
        refine Nat.le_trans (Nat.le_of_eq ?_) ih
        cases hc <;> exact TokenPool.capacity_release _ _
      | _ => exact ih

/-- **Drained.**  After a drain no handling holds a token. -/
theorem Reachable.held_of_drained (hr : Reachable w i v) (hp : v.loop.phase = .ended .drained) :
    v.loop.pool.held = [] := by
  have hstep : ∀ {l l' : ClaimLoop} {now next : Nat} {queue queue' : List Message}
      {env? : Option Envelope} {news : List Event}, l.PoolFits → l.pool.capacity ≤ maxConcurrency →
      l.Step i now next queue l' queue' env? news → l'.phase = .ended .drained →
      l'.pool.held = [] := by
    intro l l' now next queue queue' env? news hfit hcap hstep hp
    cases hstep with
    | pass ht => exact nomatch ht.receiving.symm.trans hp
    | finish hend =>
      obtain rfl := LoopPhase.ended.inj hp
      exact hend.held_eq_nil hfit hcap
    | _ => cases hp
  induction hr with
  | new hn =>
    obtain ⟨member, m, claim, hl⟩ := hn.loop_eq
    rw [hl] at hp
    cases hp
  | move hr hmove ih =>
    cases hmove with
    | arrives ms => exact ih hp
    | told _ _ => exact ih hp
    | elsewhere _ _ => exact ih hp
    | goes h => exact hstep hr.fits hr.capacity_le h hp
    | enters h => exact hstep hr.fits hr.capacity_le h hp
    | handles _ hh =>
      have hheld := ih (hh.loop_phase ▸ hp)
      cases hh with
      | completes _ hc =>
        cases hc with
        | stray =>
          change (TokenPool.release _ _).held = []
          rw [TokenPool.held_release, hheld]
          rfl
        | done =>
          change (TokenPool.release _ _).held = []
          rw [TokenPool.held_release, hheld]
          rfl
      | _ => exact hheld

/-! ## What is in flight -/

/-- Whatever is in flight has a handling that is not done, even if offsets come twice. -/
theorem Reachable.running_of_mem (hr : Reachable w i v) {o : Offset}
    (ho : o ∈ v.loop.tracker.inFlight.keys) :
    ∃ n t, v.handling? n = some t ∧ t.phase ≠ .done ∧ t.envelope.offset = o := by
  induction hr with
  | new hn =>
    obtain ⟨member, m, claim, hl⟩ := hn.loop_eq
    rw [hl] at ho
    cases ho
  | move hr hmove ih =>
    cases hmove with
    | arrives ms => exact ih ho
    | told _ _ => exact ih ho
    | elsewhere _ _ => exact ih ho
    | goes hstep =>
      rcases hstep.tracker_eq with ⟨_, heq, -⟩ | ⟨-, heq | ⟨o', heq⟩⟩
      · cases heq
      · exact ih (heq ▸ ho)
      · rw [heq, Tracker.inFlight_skip] at ho
        exact ih ho
    | enters hstep =>
      rcases hstep.tracker_eq with ⟨env, henv, heq⟩ | ⟨heq, -⟩
      · obtain rfl := Option.some.inj henv
        simp only [update_eq_some]
        rw [heq, Tracker.mem_keys_enter] at ho
        rcases ho with rfl | ho
        · exact ⟨_, _, Or.inl ⟨rfl, rfl⟩, nofun, rfl⟩
        · obtain ⟨n, t, ht, hp, hoff⟩ := ih ho
          exact ⟨n, t, Or.inr ⟨Nat.ne_of_lt (hr.numbered.handling_lt n t ht), ht⟩, hp, hoff⟩
      · cases heq
    | @handles l l' _ _ handling? _ n _ _ t t' ht hh =>
      simp only [update_eq_some]
      -- another handling stays, and so does this one unless it completes its message
      have hkeep : o ∈ l.tracker.inFlight.keys → (t.envelope.offset = o → t'.phase ≠ .done) →
          ∃ k s, (k = n ∧ t' = s ∨ k ≠ n ∧ handling? k = some s) ∧ s.phase ≠ .done ∧
            s.envelope.offset = o := by
        intro ho hnot
        obtain ⟨k, s, hs, hp, hoff⟩ := ih ho
        by_cases hk : k = n
        · subst hk
          obtain rfl := Option.some.inj (ht.symm.trans hs)
          exact ⟨k, t', Or.inl ⟨rfl, rfl⟩, hnot hoff, hh.same.2.1 ▸ hoff⟩
        · exact ⟨k, s, Or.inr ⟨hk, hs⟩, hp, hoff⟩
      cases hh with
      | released => exact hkeep ho fun _ => nofun
      | waits hstep => exact hkeep ho fun _ => (hstep.phase_eq.2.1 _ rfl).2
      | completes _ hc =>
        cases hc with
        | stray hnone =>
          refine hkeep ho ?_
          rintro rfl
          exact absurd ho (Tracker.complete_eq_none_iff.1 hnone)
        | done hc _ =>
          obtain ⟨hmem, hne⟩ := (Tracker.mem_keys_of_complete hc).1 ho
          exact hkeep hmem fun heq => absurd heq.symm hne

/-- **Idle.**  After a drain nothing is in flight, and all handlings are done. -/
theorem Reachable.idle_of_drained (hr : Reachable w i v) (hp : v.loop.phase = .ended .drained) :
    v.loop.tracker.isIdle = true ∧ v.loop.pool.held = [] ∧
      ∀ n t, v.handling? n = some t → t.phase = .done := by
  have hheld := hr.held_of_drained hp
  have hdone : ∀ n t, v.handling? n = some t → t.phase = .done := by
    intro n t ht
    by_contra hne
    have hmem := (hr.tokens.mem_iff (.handling n)).2 ⟨n, t, rfl, ht, hne⟩
    rw [hheld] at hmem
    cases hmem
  refine ⟨?_, hheld, hdone⟩
  rw [Tracker.isIdle_iff, List.eq_nil_iff_forall_not_mem]
  intro o ho
  obtain ⟨n, t, ht, hne, -⟩ := hr.running_of_mem ho
  exact hne (hdone n t ht)

/-- A claim that was drained marks nothing more. -/
theorem Move.marked_of_drained (hm : Move w i v v') (hr : Reachable w i v)
    (hp : v.loop.phase = .ended .drained) :
    v'.loop.phase = .ended .drained ∧ ∀ c, .marked i c ∈ v'.events → .marked i c ∈ v.events := by
  have hended : v.loop.isEnded = true := by rw [ClaimLoop.isEnded, hp]
  cases hm with
  | arrives ms => exact ⟨hp, fun _ => id⟩
  | told _ _ => exact ⟨hp, fun _ => id⟩
  | elsewhere _ hnews =>
    refine ⟨hp, fun c hc => (List.mem_append.1 hc).resolve_left fun hc => (hnews _ hc).1 rfl⟩
  | goes hstep => exact absurd ((taken_of_step hstep).1.symm.trans hended) Bool.false_ne_true
  | enters hstep => exact absurd ((taken_of_step hstep).1.symm.trans hended) Bool.false_ne_true
  | handles ht hh =>
    exact absurd ((hr.idle_of_drained hp).2.2 _ _ ht) hh.phase_eq.1

/-- **Quiet.**  Nor does it ever after. -/
theorem marked_of_drained (hmoves : Relation.ReflTransGen (Move w i) v v') (hr : Reachable w i v)
    (hp : v.loop.phase = .ended .drained) :
    ∀ c, .marked i c ∈ v'.events → .marked i c ∈ v.events := by
  suffices hall : v'.loop.phase = .ended .drained ∧
      ∀ c, .marked i c ∈ v'.events → .marked i c ∈ v.events from hall.2
  induction hmoves with
  | refl => exact ⟨hp, fun _ => id⟩
  | tail hmoves hm ih =>
    obtain ⟨hp', hback⟩ := hm.marked_of_drained (hr.moves hmoves) ih.1
    exact ⟨hp', fun c hc => ih.2 c (hback c hc)⟩

end ClaimView

end ConsumerGroup
