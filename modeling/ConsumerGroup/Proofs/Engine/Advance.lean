import ConsumerGroup.Proofs.Engine.Claims

/-!
# What a running engine is for its claims

Whatever a running engine does, for each of its claims that is a few moves:

* `Engine.Changes` — one claim changes, with its handlings; the engine advances if that is a few moves.
* `advances_of_goes`, `advances_of_handles`, `advances_of_claims` — a claim loop goes on, a handling
  goes on, a member is handed a claim.
* `advances_of_step`, `moves_of_run` — so every step advances the engine, and every run is moves.
* `reachable_of_run` — after a run that began without claims, the view of each claim is reachable.
-/

namespace ConsumerGroup.Engine

variable {w : World} {e e' : Engine} {i : Nat} {l l' : ClaimLoop} {news : List Event}

/-! ## Look-up -/

theorem getElem?_set_loop (hl : e.loops[i]? = some l) (hloops : e'.loops = e.loops.setIfInBounds i l')
    (j : Nat) : e'.loops[j]? = if j = i then some l' else e.loops[j]? := by
  obtain ⟨hlt, -⟩ := Array.getElem?_eq_some_iff.1 hl
  rw [hloops, Array.getElem?_setIfInBounds]
  by_cases hj : j = i
  · simp [hj, hlt]
  · simp [hj, Ne.symm hj]

theorem channels_set_loop (hl : e.loops[i]? = some l)
    (hloops : e'.loops = e.loops.setIfInBounds i l') (hc : l'.channel = l.channel) :
    e'.loops.toList.map ClaimLoop.channel = e.loops.toList.map ClaimLoop.channel := by
  apply List.ext_getElem?
  intro j
  rw [List.getElem?_map, List.getElem?_map, Array.getElem?_toList, Array.getElem?_toList,
    getElem?_set_loop hl hloops]
  split
  · rename_i hj
    rw [hj, hl, Option.map_some, Option.map_some, hc]
  · rfl

theorem handlingOf?_push {t : Handling} (hh : e'.handlings = e.handlings.push t) (i : Nat) :
    e'.handlingOf? i =
      if t.loop = i then Function.update (e.handlingOf? i) e.handlings.size (some t)
      else e.handlingOf? i := by
  funext n
  rw [handlingOf?, hh, Array.getElem?_push]
  by_cases hn : n = e.handlings.size
  · subst hn
    by_cases ht : t.loop = i <;> simp [handlingOf?, ht]
  · by_cases ht : t.loop = i <;> simp [handlingOf?, hn, ht]

theorem handlingOf?_set {n : Nat} {t t' : Handling} (ht : e.handlings[n]? = some t)
    (hh : e'.handlings = e.handlings.setIfInBounds n t') (hloop : t'.loop = t.loop) (i : Nat) :
    e'.handlingOf? i =
      if t.loop = i then Function.update (e.handlingOf? i) n (some t') else e.handlingOf? i := by
  obtain ⟨hlt, hget⟩ := Array.getElem?_eq_some_iff.1 ht
  funext k
  rw [handlingOf?, hh, Array.getElem?_setIfInBounds]
  by_cases hk : k = n
  · subst hk
    by_cases hi : t.loop = i <;> simp [handlingOf?, Option.filter_some, hlt, hget, hi, hloop]
  · by_cases hi : t.loop = i <;> simp [handlingOf?, hk, Ne.symm hk, hi]

/-! ## One claim changes -/

/-- From `e` to `e'` nothing has happened to claims but that claim loop number `i` has changed, with
its handlings. -/
structure Changes (e : Engine) (i : Nat) (l l' : ClaimLoop) (news : List Event) (e' : Engine) :
    Prop where
  /-- members do not change -/
  members_eq : e'.members = e.members
  /-- nor do other loops -/
  loops_eq : e'.loops = e.loops.setIfInBounds i l'
  /-- the loop stays that of its claim -/
  same : ClaimView.SameClaim l l'
  /-- its pool fits -/
  fits : l'.PoolFits
  /-- and has as many tokens as before -/
  capacity_eq : l'.pool.capacity = l.pool.capacity
  /-- handlings that change or are new are its own -/
  handlings : ∀ (n : Nat) (t : Handling), e'.handlings[n]? = some t →
    e.handlings[n]? = some t ∨ t.loop = i
  /-- none is lost -/
  size_le : e.handlings.size ≤ e'.handlings.size
  /-- other claims keep theirs -/
  others : ∀ j, j ≠ i → e'.handlingOf? j = e.handlingOf? j
  /-- what is noted -/
  events_eq : e'.events = news ++ e.events
  /-- is about the loop or one of its handlings -/
  about : ∀ event ∈ news, event.claim? = some i ∧ event.handling? = none ∨
    event.claim? = none ∧
      ∃ (n : Nat) (t : Handling), event.handling? = some n ∧ e.handlings[n]? = some t ∧ t.loop = i
  /-- channels stay owned -/
  owned : e'.broker.Owned (e.loops.toList.map ClaimLoop.channel)
  /-- and those of other claims grow -/
  grows : ∀ (j : Nat) (k : ClaimLoop), e.loops[j]? = some k → j ≠ i →
    (e.broker.channel k.channel).Grows (e'.broker.channel k.channel)

theorem Changes.sound (hc : e.Changes i l l' news e') (h : e.Sound) (hl : e.loops[i]? = some l) :
    e'.Sound := by
  have hget := getElem?_set_loop hl hc.loops_eq
  have hsize : e'.loops.size = e.loops.size := by rw [hc.loops_eq, Array.size_setIfInBounds]
  obtain ⟨hi, -⟩ := Array.getElem?_eq_some_iff.1 hl
  refine ⟨?_, ?_, ?_, ?_, ?_, ?_⟩
  · intro n t ht
    rw [hsize]
    rcases hc.handlings n t ht with ht | rfl
    · exact h.loop_lt n t ht
    · exact hi
  · intro event hevent j hj
    rw [hsize]
    rw [hc.events_eq, List.mem_append] at hevent
    rcases hevent with hevent | hevent
    · rcases hc.about event hevent with ⟨hclaim, -⟩ | ⟨hclaim, -⟩
      · rw [hclaim] at hj
        exact Option.some.inj hj ▸ hi
      · rw [hclaim] at hj
        cases hj
    · exact h.claim_lt event hevent j hj
  · intro event hevent n hn
    rw [hc.events_eq, List.mem_append] at hevent
    refine Nat.lt_of_lt_of_le ?_ hc.size_le
    rcases hevent with hevent | hevent
    · rcases hc.about event hevent with ⟨-, hhandling⟩ | ⟨-, n', t, hhandling, ht, -⟩
      · rw [hhandling] at hn
        cases hn
      · rw [hhandling] at hn
        obtain ⟨hlt, -⟩ := Array.getElem?_eq_some_iff.1 ht
        exact Option.some.inj hn ▸ hlt
    · exact h.handling_lt event hevent n hn
  · rw [channels_set_loop hl hc.loops_eq hc.same.channel_eq]
    exact hc.owned
  · intro j k hk
    rw [hget] at hk
    split at hk
    · obtain rfl := Option.some.inj hk
      exact hc.fits
    · exact h.fits j k hk
  · intro j k hk
    rw [hc.members_eq]
    rw [hget] at hk
    split at hk
    · obtain rfl := Option.some.inj hk
      obtain ⟨member, hm, hof⟩ := h.employed i l hl
      rw [hc.same.member_eq]
      exact ⟨member, hm, hc.same.group_eq.trans hof.group_eq, hc.capacity_eq.trans hof.capacity_eq,
        hc.same.redeliverer_eq.trans hof.redeliverer_eq⟩
    · exact h.employed j k hk

/-- If the change is a few moves for that claim, the engine advances: for the others it happens
elsewhere. -/
theorem Changes.advances (hc : e.Changes i l l' news e') (h : e.Sound) (hl : e.loops[i]? = some l)
    (hmoves : Relation.ReflTransGen (ClaimView.Move w i) (e.view i l) (e'.view i l')) :
    Advances w e e' := by
  have hget := getElem?_set_loop hl hc.loops_eq
  refine ⟨hc.sound h hl, ?_, ?_⟩
  · intro j k hk
    rw [hget]
    by_cases hj : j = i
    · subst hj
      obtain rfl := Option.some.inj (hl.symm.trans hk)
      exact ⟨l', if_pos rfl, hmoves⟩
    · refine ⟨k, by rw [if_neg hj, hk], ?_⟩
      refine moves_elsewhere (.refl k) (hc.grows j k hk hj) (hc.others j hj) hc.size_le hc.events_eq
        ?_
      intro event hevent
      rcases hc.about event hevent with ⟨hclaim, hhandling⟩ | ⟨hclaim, n, t, hhandling, ht, hloop⟩
      · rw [hclaim, hhandling]
        exact ⟨fun heq => hj (Option.some.inj heq).symm, by simp⟩
      · rw [hclaim, hhandling]
        refine ⟨by simp, ?_⟩
        intro n' hn'
        obtain rfl := Option.some.inj hn'
        obtain ⟨hlt, -⟩ := Array.getElem?_eq_some_iff.1 ht
        refine ⟨?_, Nat.lt_of_lt_of_le hlt hc.size_le⟩
        simp [handlingOf?, ht, hloop, Ne.symm hj]
  · intro j k hnone hk
    rw [hget] at hk
    split at hk
    · rename_i hj
      rw [hj, hl] at hnone
      cases hnone
    · rw [hnone] at hk
      cases hk

/-! ## A claim loop goes on -/

theorem changes_of_goes {queue : List Message} {env? : Option Envelope} (h : e.Sound)
    (hl : e.loops[i]? = some l)
    (hstep : l.Step i e.now e.handlings.size (e.broker.channel l.channel).queue l' queue env? news)
    (hgoes : e.Goes i l l' queue env? news e') : e.Changes i l l' news e' where
  members_eq := hgoes.members_eq
  loops_eq := hgoes.loops_eq
  same := hstep.sameClaim
  fits := (h.fits i l hl).step hstep
  capacity_eq := hstep.capacity_eq (h.fits i l hl)
  handlings n t ht := by
    cases env? with
    | none =>
      rw [hgoes.handlings_eq] at ht
      exact Or.inl ht
    | some env =>
      rw [hgoes.handlings_eq, Array.getElem?_push] at ht
      split at ht
      · obtain rfl := Option.some.inj ht
        exact Or.inr rfl
      · exact Or.inl ht
  size_le := by
    cases env? with
    | none => exact Nat.le_of_eq (congrArg Array.size hgoes.handlings_eq).symm
    | some env =>
      rw [hgoes.handlings_eq, Array.size_push]
      exact Nat.le_succ _
  others j hj := by
    cases env? with
    | none =>
      funext n
      rw [handlingOf?, hgoes.handlings_eq, handlingOf?]
    | some env => rw [handlingOf?_push hgoes.handlings_eq, if_neg (Ne.symm hj)]
  events_eq := events_of_journal_eq hgoes.journal_eq
  about event hevent := Or.inl (hstep.about event hevent)
  owned := h.owned.readTo (Sound.mem_channels hl) hgoes.broker
  grows j k hk hj := by
    rw [hgoes.broker.channel_ne _ (h.channel_ne hk hl hj)]
    exact .refl _

/-- A claim loop that goes on makes a move. -/
theorem advances_of_goes {queue : List Message} {env? : Option Envelope} (h : e.Sound)
    (hl : e.loops[i]? = some l)
    (hstep : l.Step i e.now e.handlings.size (e.broker.channel l.channel).queue l' queue env? news)
    (hgoes : e.Goes i l l' queue env? news e') : Advances w e e' := by
  have hview : e'.view i l' = ⟨l', (e.broker.channel l.channel).arrived, queue, e'.handlingOf? i,
      e'.handlings.size, news ++ e.events⟩ := by
    rw [view, hstep.sameClaim.channel_eq, hgoes.broker.arrived_eq, hgoes.broker.queue_eq,
      events_of_journal_eq hgoes.journal_eq]
  refine (changes_of_goes h hl hstep hgoes).advances h hl (.single ?_)
  rw [hview]
  have hh := hgoes.handlings_eq
  cases env? with
  | none =>
    have hof : e'.handlingOf? i = e.handlingOf? i := by
      funext n
      rw [handlingOf?, hh, handlingOf?]
    rw [hof, hh]
    exact .goes hstep
  | some env =>
    rw [handlingOf?_push hh, if_pos rfl, hh, Array.size_push]
    exact .enters hstep

/-! ## A handling goes on -/

variable {n : Nat} {t t' : Handling} {mark : Option Offset}

theorem Handles.grows (hh : e.Handles n t' l l' mark news e') :
    e.broker.Grows e'.broker ∧ e'.broker.sessions = e.broker.sessions := by
  obtain ⟨b, hb, heq⟩ := hh.broker
  have hpublished : e.broker.Grows b ∧ b.sessions = e.broker.sessions := by
    rcases hb with rfl | ⟨record, rfl⟩
    · exact ⟨.refl _, rfl⟩
    · exact ⟨Broker.grows_publish _ _ _, Broker.sessions_publish _ _ _⟩
  rw [heq]
  cases mark with
  | none => exact hpublished
  | some o => exact ⟨hpublished.1.trans (.of_channels_eq rfl), hpublished.2⟩

theorem changes_of_handles (h : e.Sound) (ht : e.handlings[n]? = some t)
    (hh : e.Handles n t' l l' mark news e') (hloop : t'.loop = t.loop)
    (hsame : ClaimView.SameClaim l l') (hfit : l'.PoolFits)
    (hcap : l'.pool.capacity = l.pool.capacity)
    (hhandles : ClaimView.Handles w t.loop n l t t' l' news) : e.Changes t.loop l l' news e' where
  members_eq := hh.members_eq
  loops_eq := hloop ▸ hh.loops_eq
  same := hsame
  fits := hfit
  capacity_eq := hcap
  handlings k s hs := by
    obtain ⟨hlt, -⟩ := Array.getElem?_eq_some_iff.1 ht
    rw [hh.handlings_eq, Array.getElem?_setIfInBounds] at hs
    split at hs
    · obtain rfl := Option.some.inj hs
      exact Or.inr hloop
    · exact Or.inl hs
  size_le := Nat.le_of_eq (by rw [hh.handlings_eq, Array.size_setIfInBounds])
  others j hj := by rw [handlingOf?_set ht hh.handlings_eq hloop, if_neg (Ne.symm hj)]
  events_eq := events_of_journal_eq hh.journal_eq
  about event hevent := by
    rcases hhandles.about event hevent with ⟨hclaim, hhandling⟩ | ⟨⟨o, rfl⟩, hnone⟩
    · exact Or.inr ⟨hclaim, n, t, hhandling, ht, rfl⟩
    · exact Or.inl ⟨rfl, hnone⟩
  owned := h.owned.of_sessions_eq hh.grows.1 hh.grows.2
  grows j k hk _ := hh.grows.1.channel _ (h.channel_lt hk)

/-- A handling that goes on makes a move for its claim, after what it has published has come in. -/
theorem advances_of_handles (h : e.Sound) (ht : e.handlings[n]? = some t)
    (hl : e.loops[t.loop]? = some l) (hh : e.Handles n t' l l' mark news e')
    (hloop : t'.loop = t.loop) (hsame : ClaimView.SameClaim l l') (hfit : l'.PoolFits)
    (hcap : l'.pool.capacity = l.pool.capacity)
    (hhandles : ClaimView.Handles w t.loop n l t t' l' news) : Advances w e e' := by
  have hown : e.handlingOf? t.loop n = some t := handlingOf?_eq_some.2 ⟨ht, rfl⟩
  obtain ⟨⟨ms, hqueue, harrived⟩, -⟩ := hh.grows.1.channel _ (h.channel_lt hl)
  have hview : e'.view t.loop l' = ⟨l', (e.broker.channel l.channel).arrived ++ ms,
      (e.broker.channel l.channel).queue ++ ms,
      Function.update (e.handlingOf? t.loop) n (some t'), e.handlings.size, news ++ e.events⟩ := by
    rw [view, hsame.channel_eq, harrived, hqueue, events_of_journal_eq hh.journal_eq,
      handlingOf?_set ht hh.handlings_eq hloop, if_pos rfl, hh.handlings_eq, Array.size_setIfInBounds]
  apply (changes_of_handles h ht hh hloop hsame hfit hcap hhandles).advances h hl
  rw [hview]
  exact (Relation.ReflTransGen.single (.arrives ms)).tail (.handles hown hhandles)

theorem advances_of_comes {startedAt : Nat} {phase? : Option HandlingPhase} (h : e.Sound)
    (ht : e.handlings[n]? = some t) (hl : e.loops[t.loop]? = some l)
    (hstep : t.Step w n e.now l.redeliverer phase? startedAt news)
    (hcomes : e.Comes n { t with startedAt } l news phase? e') : Advances w e e' := by
  cases hcomes with
  | waits hh => exact advances_of_handles h ht hl hh rfl (.refl l) (h.fits _ l hl) rfl (.waits hstep)
  | completes hc hh =>
    have hcap : ∀ {l' mark}, l.Completes n t.envelope.offset l' mark →
        l'.pool.capacity = l.pool.capacity := by
      rintro l' mark (_ | _) <;> exact TokenPool.capacity_release _ _
    exact advances_of_handles h ht hl hh rfl hc.sameClaim ((h.fits _ l hl).completes hc) (hcap hc)
      (.completes hstep hc)

/-- A handler that is released goes on at once if it waits, and nothing else changes but who waits. -/
theorem releaseHandling_inv (e : Engine) (n : Nat) :
    ∃ handlings, e.releaseHandling n = { e with holding := e.holding.erase n, handlings } ∧
      (handlings = e.handlings ∨ ∃ t rest, e.handlings[n]? = some t ∧ t.phase = .held rest ∧
        handlings = e.handlings.setIfInBounds n { t with phase := .pausing e.now rest }) := by
  rw [releaseHandling]
  dsimp only
  split
  · rename_i t ht
    split
    · rename_i rest hp
      exact ⟨_, rfl, Or.inr ⟨t, rest, ht, hp, rfl⟩⟩
    · exact ⟨_, rfl, Or.inl rfl⟩
  · exact ⟨_, rfl, Or.inl rfl⟩

/-- A handler is released. -/
theorem advances_of_release (h : e.Sound) (n : Nat) : Advances w e (e.releaseHandling n) := by
  obtain ⟨handlings, hrelease, rfl | ⟨t, rest, ht, hp, rfl⟩⟩ := e.releaseHandling_inv n
  · rw [hrelease]
    exact Outside.advances (.of_eq rfl rfl rfl rfl rfl) h
  · obtain ⟨l, hl⟩ : ∃ l, e.loops[t.loop]? = some l :=
      ⟨_, Array.getElem?_eq_getElem (h.loop_lt n t ht)⟩
    have hh := ((Works.refl e).holding (e.holding.erase n)).waits (h := n) hl
      { t with phase := .pausing e.now rest } rfl
    rw [hrelease]
    exact advances_of_handles h ht hl hh rfl (.refl l) (h.fits _ l hl) rfl (.released hp)

/-! ## A member is handed a claim -/

/-- The pool of a new claim loop fits, and has as many tokens as the member is to use. -/
theorem poolFits_loopFor (member : Member) (m : Nat) (claim : Claim) :
    (member.loopFor m claim).PoolFits ∧
      (member.loopFor m claim).pool.capacity = member.config.concurrency := by
  refine ⟨⟨TokenPool.balanced_ofCapacity _, TokenPool.isQuiet_ofCapacity _, rfl⟩, ?_⟩
  exact Nat.max_eq_left member.config.concurrency_pos

section

variable {m : Nat} {member : Member} {s : SessionId} {claim : Claim} {b : Broker}

theorem getElem?_of_claims
    (hmv : e.Moves m member b (e.loops.push (member.loopFor m claim)) (.consuming s)
      [.claimed e.loops.size] e') (j : Nat) :
    e'.loops[j]? = if j = e.loops.size then some (member.loopFor m claim) else e.loops[j]? := by
  rw [hmv.loops_eq, Array.getElem?_push]

theorem sound_of_claims (h : e.Sound) (hm : e.members[m]? = some member)
    (hn : e.broker.nextClaim s = (.claim claim, b))
    (hmv : e.Moves m member b (e.loops.push (member.loopFor m claim)) (.consuming s)
      [.claimed e.loops.size] e') : e'.Sound := by
  obtain ⟨howned, -, -⟩ := h.owned.handOut hn
  have hsize : e'.loops.size = e.loops.size + 1 := by rw [hmv.loops_eq, Array.size_push]
  have hget := getElem?_of_claims hmv
  have hold : ∀ event ∈ e'.events, event = .claimed e.loops.size ∨ event ∈ e.events := by
    intro event hevent
    rw [events_of_journal_eq hmv.journal_eq] at hevent
    exact List.mem_cons.1 hevent
  obtain ⟨member', hm', hlike⟩ := like_setMember hm (.consuming s) m member hm
  rw [← hmv.members_eq] at hm'
  refine ⟨?_, ?_, ?_, ?_, ?_, ?_⟩
  · intro k t ht
    rw [hmv.handlings_eq] at ht
    have := h.loop_lt k t ht
    omega
  · intro event hevent j hj
    rcases hold event hevent with rfl | hevent
    · cases hj
    · have := h.claim_lt event hevent j hj
      omega
  · intro event hevent k hk
    rw [hmv.handlings_eq]
    rcases hold event hevent with rfl | hevent
    · cases hk
    · exact h.handling_lt event hevent k hk
  · rw [hmv.loops_eq, hmv.broker_eq, Array.toList_push, List.map_append]
    exact howned
  · intro j k hk
    rw [hget] at hk
    split at hk
    · obtain rfl := Option.some.inj hk
      exact (poolFits_loopFor member m claim).1
    · exact h.fits j k hk
  · intro j k hk
    rw [hget] at hk
    split at hk
    · obtain rfl := Option.some.inj hk
      have hof : (member.loopFor m claim).IsOf member :=
        ⟨rfl, (poolFits_loopFor member m claim).2, rfl⟩
      exact ⟨member', hm', hof.like hlike⟩
    · obtain ⟨member₁, hm₁, hof⟩ := h.employed j k hk
      obtain ⟨member₂, hm₂, hlike⟩ := like_setMember hm (.consuming s) _ member₁ hm₁
      rw [← hmv.members_eq] at hm₂
      exact ⟨member₂, hm₂, hof.like hlike⟩

/-- A claim that is handed out is new. -/
theorem isNew_of_claims (h : e.Sound) (hn : e.broker.nextClaim s = (.claim claim, b))
    (hmv : e.Moves m member b (e.loops.push (member.loopFor m claim)) (.consuming s)
      [.claimed e.loops.size] e')
    (hchannels : ∀ c, e'.broker.channel c = e.broker.channel c)
    (hof : ∀ i, e'.handlingOf? i = e.handlingOf? i) :
    (e'.view e.loops.size (member.loopFor m claim)).IsNew e.loops.size := by
  obtain ⟨-, -, hunread⟩ := h.owned.handOut hn
  refine ⟨⟨member, m, claim, rfl⟩, ?_, ?_, ?_⟩
  · change (e'.broker.channel claim.channel).queue = (e'.broker.channel claim.channel).arrived
    rw [hchannels]
    exact hunread
  · intro n
    change e'.handlingOf? e.loops.size n = none
    rw [hof]
    rcases ht : e.handlingOf? e.loops.size n with _ | t
    · rfl
    · obtain ⟨ht, hloop⟩ := handlingOf?_eq_some.1 ht
      exact absurd hloop (Nat.ne_of_lt (h.loop_lt n t ht))
  · intro event hevent
    change event ∈ e'.events at hevent
    rw [events_of_journal_eq hmv.journal_eq, List.singleton_append, List.mem_cons] at hevent
    rcases hevent with rfl | hevent
    · exact ⟨by simp [Event.claim?], by simp [Event.handling?]⟩
    · refine ⟨?_, ?_⟩
      · intro heq
        exact Nat.lt_irrefl _ (h.claim_lt event hevent _ heq)
      · intro n hn
        change n < e'.handlings.size
        rw [hmv.handlings_eq]
        exact h.handling_lt event hevent n hn

/-- When a claim is handed out, that happens elsewhere for the others. -/
theorem advances_of_claims (h : e.Sound) (hm : e.members[m]? = some member)
    (hn : e.broker.nextClaim s = (.claim claim, b))
    (hmv : e.Moves m member b (e.loops.push (member.loopFor m claim)) (.consuming s)
      [.claimed e.loops.size] e') : Advances w e e' := by
  have hchannels : ∀ c, e'.broker.channel c = e.broker.channel c := by
    intro c
    rw [hmv.broker_eq]
    refine Broker.channel_congr ?_ c
    rw [← Broker.channels_nextClaim e.broker s, hn]
  have hof : ∀ i, e'.handlingOf? i = e.handlingOf? i := by
    intro i
    funext k
    rw [handlingOf?, hmv.handlings_eq, handlingOf?]
  have hget := getElem?_of_claims hmv
  refine ⟨sound_of_claims h hm hn hmv, ?_, ?_⟩
  · intro j k hk
    obtain ⟨hlt, -⟩ := Array.getElem?_eq_some_iff.1 hk
    refine ⟨k, by rw [hget, if_neg (Nat.ne_of_lt hlt), hk], ?_⟩
    have hcount := Nat.le_of_eq (congrArg Array.size hmv.handlings_eq.symm)
    refine moves_elsewhere (.refl k) ?_ (hof j) hcount (events_of_journal_eq hmv.journal_eq) ?_
    · rw [hchannels]
      exact .refl _
    · intro event hevent
      rw [List.mem_singleton.1 hevent]
      exact ⟨by simp [Event.claim?], by simp [Event.handling?]⟩
  · intro j k hnone hk
    rw [hget] at hk
    split at hk
    · rename_i hj
      subst hj
      obtain rfl := Option.some.inj hk
      exact isNew_of_claims h hn hmv hchannels hof
    · rw [hnone] at hk
      cases hk

end

/-! ## Steps and runs -/

/-- **Steps.**  Every step advances a sound engine. -/
theorem advances_of_step (h : e.Sound) (hs : Step w e e') : Advances w e e' := by
  cases hs with
  | @task _ t ht =>
    cases t with
    | member m =>
      obtain ⟨member, b, loops, phase, events, hm, hstep, hmv⟩ := stepMember?_inv ht
      by_cases hsize : loops.size = e.loops.size
      · exact (hstep.outside hmv hm hsize).advances h
      · cases hstep with
        | claims _ hn => exact advances_of_claims h hm hn hmv
        | ends => simp [modifyLoopsOf] at hsize
        | stops => simp [modifyLoopsOf] at hsize
        | _ => exact absurd rfl hsize
    | loop i =>
      obtain ⟨l, l', queue, env?, events, hl, hstep, hgoes⟩ :=
        stepLoop?_inv ht (h.fits i) fun l hl => h.channel_lt hl
      exact advances_of_goes h hl hstep hgoes
    | handling n =>
      obtain ⟨t, l, phase?, startedAt, events, htn, hl, hstep, hcomes⟩ :=
        stepHandling?_inv ht (h.loop_lt n)
      exact advances_of_comes h htn hl hstep hcomes
  | act a =>
    by_cases ha : ∃ n, a = .release n
    · obtain ⟨n, rfl⟩ := ha
      exact advances_of_release h n
    · exact (outside_act a fun n hn => ha ⟨n, hn⟩).advances h
  | tick t _ =>
    have hout : e.Outside { e with now := t } := .of_eq rfl rfl rfl rfl rfl
    exact hout.advances h

theorem sound_of_run (h : e.Sound) (hrun : Run w e e') : e'.Sound :=
  hrun.keeps (fun _ _ hs hstep => (advances_of_step hs hstep).sound) h

/-- Every run is moves for the claims there were. -/
theorem moves_of_run (h : e.Sound) (hrun : Run w e e') (hl : e.loops[i]? = some l) :
    ∃ l', e'.loops[i]? = some l' ∧
      Relation.ReflTransGen (ClaimView.Move w i) (e.view i l) (e'.view i l') := by
  induction hrun with
  | refl => exact ⟨l, hl, .refl⟩
  | tail hrun hstep ih =>
    obtain ⟨l₁, hl₁, hmoves⟩ := ih
    obtain ⟨l₂, hl₂, hmoves'⟩ := (advances_of_step (sound_of_run h hrun) hstep).moves i l₁ hl₁
    exact ⟨l₂, hl₂, hmoves.trans hmoves'⟩

/-! ## From the beginning -/

/-- No claim has been handed out yet. -/
structure IsFresh (e : Engine) : Prop where
  /-- no claim loop has been started -/
  loops_eq : e.loops = #[]
  /-- and no handling -/
  handlings_eq : e.handlings = #[]
  /-- nothing has happened -/
  journal_eq : e.journal = []
  /-- and no session has a claim to hand out -/
  pending_eq : ∀ session ∈ e.broker.sessions, session.pending = []

theorem isFresh_empty : ({} : Engine).IsFresh := ⟨rfl, rfl, rfl, by simp⟩

theorem IsFresh.sound (h : e.IsFresh) : e.Sound := by
  have hpending : e.broker.pendingChannels = [] := by
    apply List.flatMap_eq_nil_iff.2
    intro session hs
    rw [h.pending_eq session (Array.mem_toList_iff.1 hs)]
    rfl
  have hevents : e.events = [] := by rw [events, h.journal_eq, List.map_nil]
  refine ⟨?_, ?_, ?_, ⟨?_, ?_, ?_⟩, ?_, ?_⟩
  · intro n t ht
    simp [h.handlings_eq] at ht
  · simp [hevents]
  · simp [hevents]
  · simp [hpending, h.loops_eq]
  · simp [hpending, h.loops_eq]
  · simp [hpending]
  · intro i l hl
    simp [h.loops_eq] at hl
  · intro i l hl
    simp [h.loops_eq] at hl

/-- **Claims.**  After a run that began without claims, the view of each claim is a reachable one. -/
theorem reachable_of_run {e₀ : Engine} (h : e₀.IsFresh) (hrun : Run w e₀ e)
    (hl : e.loops[i]? = some l) : ClaimView.Reachable w i (e.view i l) := by
  induction hrun generalizing l with
  | refl => simp [h.loops_eq] at hl
  | @tail e₁ e₂ hrun hstep ih =>
    have hadv := advances_of_step (sound_of_run h.sound hrun) hstep
    rcases hl₁ : e₁.loops[i]? with _ | l₁
    · exact .new (hadv.isNew i l hl₁ hl)
    · obtain ⟨l₂, hl₂, hmoves⟩ := hadv.moves i l₁ hl₁
      obtain rfl := Option.some.inj (hl.symm.trans hl₂)
      exact (ih hl₁).moves hmoves

end ConsumerGroup.Engine
