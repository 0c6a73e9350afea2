import ConsumerGroup.Proofs.Concurrency
import ConsumerGroup.Proofs.Feedback.Bounds
import ConsumerGroup.Proofs.Redelivery.Identity
import Mathlib.Data.Set.Card

/-!
# What becomes of a message that always fails

One group reads the topic, its handlers fail and the producer takes every record.  When nobody can go
on any more, each message for the group has had one handling, and that has published the next message
if the count is below the limit.  So a message and its redeliveries are a chain, and the count of the
first one says how long it is.

* `Engine.IsQuiet`, `Engine.OneGroup`, `Engine.AllFail` — the engines in question.
* `Feeding.exists_handled` — every message for the group has been handled.
* `Feeding.published_iff` — which of them have been published again.
* `Engine.Chain` — a message and what descends from it.

Main statement: `Feeding.encard_chain`.
-/

namespace ConsumerGroup

/-- Nobody can go on, and all messages that have a handling are completed. -/
structure Engine.IsQuiet (w : World) (e : Engine) : Prop where
  /-- no task can go on -/
  stuck : ∀ t, e.step? w t = none
  /-- no handler waits to be released, and nothing waits for its time -/
  done : ∀ t ∈ e.handlings.toList, t.phase = .done

/-- All members are in one group and redeliver a message equally often, and one of them reads. -/
structure Engine.OneGroup (group : String) (limit : Nat) (e : Engine) : Prop where
  /-- they are alike -/
  alike : ∀ member ∈ e.members.toList, member.config.groupId = group ∧
    member.config.retryLimit = limit
  /-- one of them has a session -/
  reads : ∃ member ∈ e.members.toList, ∃ s, member.phase = .consuming s

/-- If a handler has returned then it has failed, and if the producer was called then it has taken the
record. -/
def Event.Fails : Event → Prop
  | returned _ outcome => outcome ≠ none
  | called _ reply => reply = .accepted
  | _ => True

instance : (event : Event) → Decidable event.Fails
  | .returned _ outcome => inferInstanceAs (Decidable (outcome ≠ none))
  | .called _ reply => inferInstanceAs (Decidable (reply = .accepted))
  | .joining _ | .claimed _ | .taken .. | .skipped .. | .parked .. | .entered .. | .ended .. | .started _
  | .completed _ | .marked .. | .left .. | .restarting .. => inferInstanceAs (Decidable True)

/-- All handlers have failed, and the producer has taken all records. -/
def Engine.AllFail (e : Engine) : Prop := ∀ event ∈ e.events, event.Fails

instance (e : Engine) : Decidable e.AllFail :=
  inferInstanceAs (Decidable (∀ event ∈ e.events, event.Fails))

/-- There is a message for the group at a place. -/
def Engine.IsFor (e : Engine) (group : String) (place : TopicPartition × Nat) : Prop :=
  ∃ m, e.broker.message? place = some m ∧
    ∀ fresh, (Envelope.ofMessage fresh place.1 m).isAddressedTo group = true

/-- `a` is `place`, or the message at `a` descends from the one at `place`. -/
def Engine.Chain (topic : String) (k : Ledger) (e : Engine) :
    TopicPartition × Nat → TopicPartition × Nat → Prop :=
  Relation.ReflTransGen fun place a => ∃ m, e.Descends topic k m place a

/-- The handlings of a message and of what descends from it. -/
def Engine.chainHandlings (topic : String) (k : Ledger) (e : Engine)
    (place : TopicPartition × Nat) : Set Nat :=
  { n | ∃ a m, e.Chain topic k place a ∧ e.Handled a m n }

/-- What these handlings have published. -/
def Engine.chainPublished (topic : String) (k : Ledger) (e : Engine)
    (place : TopicPartition × Nat) : Set (Nat × Nat) :=
  { p | p ∈ k.published ∧ p.2 ∈ e.chainHandlings topic k place }

namespace Feeding

variable {w : World} {topic group : String} {limit : Nat} {k : Ledger} {e : Engine} {i : Nat}
  {l : ClaimLoop} {place : TopicPartition × Nat}

/-! ## Everything is handled -/

/-- A claim loop that waits for a token gets one when all handlings are done. -/
theorem resume_of_parked (h : Feeding w topic k e) (hdone : ∀ t ∈ e.handlings.toList, t.phase = .done)
    (hl : e.loops[i]? = some l) {env : Envelope} (hp : l.phase = .parked env) :
    (l.pool.resume .loop).1 = .served := by
  have hr := h.service.reachable hl
  have hheld : l.pool.held = [] := by
    rw [List.eq_nil_iff_forall_not_mem]
    intro u hu
    obtain ⟨n, t, -, ht, hphase⟩ := (hr.tokens.mem_iff u).1 hu
    have hmem := Array.mem_of_getElem? (Engine.handlingOf?_eq_some.1 ht).1
    exact hphase (hdone t (Array.mem_toList_iff.2 hmem))
  have hasks := hr.fits.asks
  rw [show (e.view i l).loop = l from rfl, hp] at hasks
  obtain ⟨hasks, hopen⟩ := hasks
  rcases hwaiting : l.pool.waiting with _ | ⟨waiter, rest⟩
  · cases hasks with
    | waiting _ _ _ _ _ hsome => exact nomatch hwaiting.symm.trans hsome
    | served _ hserved => simp [TokenPool.resume, hopen, hserved]
  · -- it would wait only as long as all tokens are held
    obtain ⟨left, hbooks⟩ := hr.books (h.ordered hl).nodup
    have hfull : l.pool.held.length = l.pool.capacity :=
      hbooks.full env hp (by simp [Engine.view, hwaiting])
    obtain ⟨member, -, hof, -⟩ := h.employer hl
    have hpos := member.config.concurrency_pos
    rw [← hof.capacity_eq, ← hfull, hheld] at hpos
    exact absurd hpos (Nat.lt_irrefl 0)

/-- When nobody can go on, all messages have been read. -/
theorem receiving_of_isQuiet (h : Feeding w topic k e) (hq : e.IsQuiet w)
    (hl : e.loops[i]? = some l) :
    l.phase = .receiving ∧ (e.broker.channel l.channel).queue = [] := by
  have hgoing := h.steady.not_isStopped hl
  simp only [ClaimLoop.IsStopped, not_or, not_and, Bool.not_eq_true] at hgoing
  obtain ⟨hcancelled, haborted, hphase⟩ := hgoing
  have hstuck : e.stepLoop? w i = none := hq.stuck (.loop i)
  rw [Engine.stepLoop?, hl] at hstuck
  rcases hp : l.phase with _ | env | deadline | how
  · refine ⟨rfl, ?_⟩
    rcases hqueue : (e.broker.channel l.channel).queue with _ | ⟨m, rest⟩
    · rfl
    · simp [ClaimLoop.isEnded, hp, haborted, Engine.goLoop?, hcancelled, Broker.receive,
        Channel.receive, hqueue] at hstuck
  · have hserved := h.resume_of_parked hq.done hl hp
    rcases hresume : l.pool.resume .loop with ⟨answer, pool⟩
    rw [hresume] at hserved
    obtain rfl : answer = .served := hserved
    simp [ClaimLoop.isEnded, hp, haborted, Engine.goLoop?, hcancelled, hresume] at hstuck
  · exact absurd (fun env => by simp [hp]) (hphase (by simp [hp]))
  · exact absurd (fun env => by simp [hp]) (hphase (by simp [hp]))

/-- When nobody can go on, all messages that came in were passed over or have a handling. -/
theorem seen_of_isQuiet (h : Feeding w topic k e) (hq : e.IsQuiet w) (hl : e.loops[i]? = some l)
    {m : Message} (hm : m ∈ (e.broker.channel l.channel).arrived) :
    .skipped i m.offset ∈ e.events ∨ ∃ n, .entered i m.offset n ∈ e.events := by
  have hr := h.service.reachable hl
  obtain ⟨hreceiving, hqueue⟩ := h.receiving_of_isQuiet hq hl
  have hall : ((e.view i l).taken i).reverse ++ ([] : List Message).map Message.offset =
      (e.broker.channel l.channel).arrived.map Message.offset := by
    rw [← hqueue]
    exact hr.inOrder.queue_eq (by simp [Engine.view, ClaimLoop.isEnded, hreceiving])
  rw [List.map_nil, List.append_nil] at hall
  have htaken : m.offset ∈ (e.view i l).taken i := by
    rw [← List.mem_reverse, hall]
    exact List.mem_map_of_mem hm
  obtain ⟨left, hleft⟩ := hr.accounted
  obtain rfl := hleft.receiving hreceiving
  have hmem := hleft.perm.mem_iff.1 htaken
  rw [Option.toList_none, List.append_nil, List.mem_append] at hmem
  exact hmem.imp ClaimView.mem_skipped.1 ClaimView.mem_entered.1

/-- All claim loops are for the one group, and redeliver equally often. -/
theorem loop_alike (h : Feeding w topic k e) (hone : e.OneGroup group limit)
    (hl : e.loops[i]? = some l) : l.group = group ∧ l.redeliverer.retryLimit = limit := by
  obtain ⟨member, hm, hof, -⟩ := h.employer hl
  obtain ⟨hg, hlimit⟩ := hone.alike member (Array.mem_toList_iff.2 (Array.mem_of_getElem? hm))
  refine ⟨hof.group_eq.trans hg, ?_⟩
  rw [hof.redeliverer_eq]
  exact hlimit

/-- When nobody can go on, the group has a claim loop for each partition. -/
theorem exists_loop (h : Feeding w topic k e) (hq : e.IsQuiet w) (hone : e.OneGroup group limit)
    {source : TopicPartition} {log : Array Message} (ht : source.topic = topic)
    (hlog : e.broker.log? source = some log) :
    ∃ (i : Nat) (l : ClaimLoop), e.loops[i]? = some l ∧ l.source = source := by
  obtain ⟨member, hmem, s, hp⟩ := hone.reads
  obtain ⟨m, hm⟩ := Array.mem_iff_getElem?.1 (Array.mem_toList_iff.1 hmem)
  obtain ⟨hs, -⟩ := (h.serving group 0).members m member s hm hp
  -- the member has been handed all claims of its session
  have hpending : (e.broker.session s).pending = [] := by
    have hstuck : e.stepMember? m = none := hq.stuck (.member m)
    rw [Engine.stepMember?, hm] at hstuck
    rcases hpending : (e.broker.session s).pending with _ | ⟨claim, rest⟩
    · rfl
    · cases hsignal : member.signalled <;>
        simp [Member.isOver, hp, hsignal, Engine.goMember?, Broker.nextClaim, hpending] at hstuck
  obtain ⟨c, hc⟩ := Option.isSome_iff_exists.1 (h.readBy.all s hs source log ht hlog)
  rcases h.handed hc with hwaits | ⟨i, l, hl, hsource, -⟩
  · rw [hpending] at hwaits
    cases hwaits
  · exact ⟨i, l, hl, hsource⟩

/-- A message for the group of a claim loop is not passed over. -/
theorem not_skipped (h : Feeding w topic k e) (hl : e.loops[i]? = some l) {o : Nat}
    (hfor : e.IsFor l.group (l.source, o)) : .skipped i (o : Offset) ∉ e.events := by
  intro hskipped
  obtain ⟨m, hm, haddressed⟩ := hfor
  obtain ⟨m', hm', hoffset, haddr⟩ := (h.service.reachable hl).comesFrom.skipped _ hskipped
  obtain ⟨o', ho', hmessage⟩ := h.message?_of_arrived hl hm'
  obtain rfl : o' = o := Int.ofNat_inj.1 (ho'.symm.trans hoffset)
  obtain rfl := Option.some.inj (hm.symm.trans hmessage)
  exact nomatch (haddr default).symm.trans (haddressed default)

/-- When nobody can go on, a message for the group of a claim loop has been entered. -/
theorem entered_of_isFor (h : Feeding w topic k e) (hq : e.IsQuiet w) (hl : e.loops[i]? = some l)
    {o : Nat} (hfor : e.IsFor l.group (l.source, o)) : ∃ n, .entered i (o : Offset) n ∈ e.events := by
  have hnot := h.not_skipped hl hfor
  obtain ⟨m, hm, -⟩ := hfor
  obtain ⟨log, base, hlog, hislog, harrived, hbelow⟩ := h.window hl
  rw [Broker.message?, hlog, Option.bind_some, ← Array.getElem?_toList] at hm
  -- it lies below the claim, or has come in on it
  by_cases hbase : o < base
  · obtain ⟨i', l', hl', hg, hs, hsettled⟩ := hbelow o hbase
    obtain rfl := h.loop_unique hl' hl hg hs
    exact (hsettled.resolve_left hnot).imp fun _ => And.left
  · have hmem : m ∈ (e.broker.channel l.channel).arrived := by
      rw [harrived]
      refine List.mem_iff_getElem?.2 ⟨o - base, ?_⟩
      rw [List.getElem?_drop, Nat.add_sub_cancel' (Nat.le_of_not_lt hbase), hm]
    have hseen := h.seen_of_isQuiet hq hl hmem
    rw [hislog o m hm] at hseen
    exact hseen.resolve_left hnot

/-- **Everything is handled.**  When nobody can go on, every message for the group has a handling. -/
theorem exists_handled (h : Feeding w topic k e) (hq : e.IsQuiet w) (hone : e.OneGroup group limit)
    (ht : place.1.topic = topic) (hfor : e.IsFor group place) : ∃ m n, e.Handled place m n := by
  have ⟨_, hm, _⟩ := hfor
  obtain ⟨log, hlog, -⟩ := Option.bind_eq_some_iff.1 hm
  obtain ⟨i, l, hl, hsource⟩ := h.exists_loop hq hone ht hlog
  have hfor' : e.IsFor l.group (l.source, place.2) := by
    rw [(h.loop_alike hone hl).1, hsource]
    exact hfor
  obtain ⟨n, hn⟩ := h.entered_of_isFor hq hl hfor'
  obtain ⟨t, ht, hoffset⟩ := ((h.service.reachable hl).recorded.entered_iff _ n).1 hn
  obtain ⟨ht', rfl⟩ := Engine.handlingOf?_eq_some.1 ht
  exact ⟨l.member, n, t, l, ht', hl, rfl, hsource, hoffset⟩

/-- A message has one handling, as there is one group. -/
theorem handled_unique (h : Feeding w topic k e) (hone : e.OneGroup group limit) {m m' n n' : Nat}
    (hn : e.Handled place m n) (hn' : e.Handled place m' n') : n = n' := by
  obtain ⟨t, l, ht, hl, -, hs, ho⟩ := hn
  obtain ⟨t', l', ht', hl', -, hs', ho'⟩ := hn'
  exact h.handling_unique ht ht' hl hl'
    ((h.loop_alike hone hl).1.trans (h.loop_alike hone hl').1.symm) (hs.trans hs'.symm)
    (ho.trans ho'.symm)

/-! ## What is published -/

/-- **Published again.**  When nobody can go on, the handling of a message has published it again just
if its count is below the limit. -/
theorem published_iff (h : Feeding w topic k e) (hq : e.IsQuiet w) (hone : e.OneGroup group limit)
    (hfail : e.AllFail) {m n : Nat} (hn : e.Handled place m n) :
    (∃ o, (o, n) ∈ k.published) ↔ e.retriesAt place < limit := by
  constructor
  · rintro ⟨o, hp⟩
    obtain ⟨member, -, hm, -, -, hle, -⟩ := h.count_of_published hp hn
    obtain ⟨-, hlimit⟩ := hone.alike member (Array.mem_toList_iff.2 (Array.mem_of_getElem? hm))
    exact hlimit ▸ hle
  · intro hlt
    obtain ⟨t, l, -, -, ht, hl, -, -, -, -, hretries⟩ := h.of_handled hn
    obtain ⟨-, hlimit⟩ := h.loop_alike hone hl
    have hr := h.service.reachable hl
    have hof : (e.view t.loop l).handling? n = some t := Engine.handlingOf?_eq_some.2 ⟨ht, rfl⟩
    have hdone := hq.done t (Array.mem_toList_iff.2 (Array.mem_of_getElem? ht))
    rw [← hretries, ← hlimit] at hlt
    have hplan := Redeliverer.plan_of_lt hlt
    -- the handler has failed, so the producer was called, and it took the record
    have haccepted : n ∈ e.accepted := by
      rcases hr.processed hof ((hr.recorded.completed_iff n t hof).2 hdone) with
        hreturned | ⟨failure, -, hexhausted | ⟨-, -, reply, earlier, -, hreplies, -⟩⟩
      · exact absurd rfl (hfail _ hreturned)
      · exact nomatch hplan.symm.trans hexhausted
      · have hmem : reply ∈ repliesTo n e.events := hreplies ▸ List.mem_cons_self
        obtain ⟨event, he, hreply⟩ := List.mem_filterMap.1 hmem
        refine List.mem_filterMap.2 ⟨event, he, ?_⟩
        cases event <;> simp only [Event.reply?, reduceCtorEq] at hreply
        rename_i n' reply'
        split at hreply
        · rename_i hn
          subst hn
          obtain rfl : reply' = .accepted := hfail _ he
          rfl
        · cases hreply
    rw [← h.tells.accepted] at haccepted
    obtain ⟨⟨o, n'⟩, hp, rfl⟩ := List.mem_map.1 haccepted
    exact ⟨o, hp⟩

/-- What is published again is for the same group. -/
theorem isFor_of_descends (h : Feeding w topic k e) {m : Nat} {a : TopicPartition × Nat}
    (hfor : e.IsFor group place) (ha : e.Descends topic k m place a) : e.IsFor group a := by
  obtain ⟨o, n, rfl, hp, hn⟩ := ha
  obtain ⟨t, l, message, fresh, ht, -, -, -, hm, henvelope, -⟩ := h.of_handled hn
  obtain ⟨t', -, message', ht', -, -, -, hm', hheaders⟩ := h.tells.made _ hp
  obtain rfl := Option.some.inj (ht.symm.trans ht')
  obtain ⟨_, hsome, haddressed⟩ := hfor
  obtain rfl := Option.some.inj (hm.symm.trans hsome)
  refine ⟨message', hm', fun fresh' => ?_⟩
  have hgroup : (Envelope.ofMessage fresh' ⟨topic, 0⟩ message').group? = t.envelope.group? := by
    change (message'.headers.get? Headers.groupKey).filter _ = _
    rw [hheaders, Redeliverer.get?_headersFor_of_ne (by decide) (by decide) (by decide)]
    rfl
  have hsame := haddressed fresh
  rw [← henvelope] at hsame
  rw [Envelope.isAddressedTo, hgroup]
  exact hsame

/-! ## Chains -/

theorem retriesAt_le_of_chain (h : Feeding w topic k e) {a : TopicPartition × Nat}
    (ha : e.Chain topic k place a) : e.retriesAt place ≤ e.retriesAt a := by
  induction ha with
  | refl => exact Nat.le_refl _
  | tail _ hdescends ih =>
    obtain ⟨m, hdescends⟩ := hdescends
    exact h.retriesAt_of_descends hdescends ▸ Nat.le_succ_of_le ih

/-- A handling is that of one message. -/
theorem eq_of_handled {a : TopicPartition × Nat} {m m' n : Nat} (hn : e.Handled place m n)
    (hn' : e.Handled a m' n) : place = a := by
  obtain ⟨t, l, ht, hl, -, hs, ho⟩ := hn
  obtain ⟨t', l', ht', hl', -, hs', ho'⟩ := hn'
  obtain rfl := Option.some.inj (ht.symm.trans ht')
  obtain rfl := Option.some.inj (hl.symm.trans hl')
  exact Prod.ext (hs.symm.trans hs') (Int.ofNat_inj.1 (ho.symm.trans ho'))

/-- Without a redelivery the chain is the message alone. -/
theorem chainHandlings_of_last (h : Feeding w topic k e) (hone : e.OneGroup group limit) {m n : Nat}
    (hn : e.Handled place m n) (hlast : ∀ o, (o, n) ∉ k.published) :
    e.chainHandlings topic k place = {n} := by
  have hno : ∀ m' a, ¬ e.Descends topic k m' place a := by
    rintro m' a ⟨o, n', -, hp, hn'⟩
    obtain rfl := h.handled_unique hone hn hn'
    exact hlast o hp
  ext n'
  constructor
  · rintro ⟨a, m', ha, hn'⟩
    rcases Relation.ReflTransGen.cases_head_iff.1 ha with rfl | ⟨b, ⟨m'', hb⟩, -⟩
    · exact h.handled_unique hone hn' hn
    · exact absurd hb (hno m'' b)
  · rintro rfl
    exact ⟨place, m, .refl, hn⟩

/-- With one, the chain goes on from there. -/
theorem chainHandlings_of_next (h : Feeding w topic k e) (hone : e.OneGroup group limit) {m n o : Nat}
    (hn : e.Handled place m n) (hp : (o, n) ∈ k.published) :
    e.chainHandlings topic k place = insert n (e.chainHandlings topic k (⟨topic, 0⟩, o)) ∧
      n ∉ e.chainHandlings topic k (⟨topic, 0⟩, o) := by
  have hnext : e.Descends topic k m place (⟨topic, 0⟩, o) := ⟨o, n, rfl, hp, hn⟩
  refine ⟨?_, ?_⟩
  · ext n'
    constructor
    · rintro ⟨a, m', ha, hn'⟩
      rcases Relation.ReflTransGen.cases_head_iff.1 ha with rfl | ⟨b, ⟨m'', hb⟩, ha⟩
      · exact Or.inl (h.handled_unique hone hn' hn)
      · obtain ⟨o', n'', rfl, hp', hn''⟩ := hb
        obtain rfl := h.handled_unique hone hn hn''
        obtain rfl : o = o' := (Prod.mk.inj (List.inj_on_of_nodup_map h.tells.once hp hp' rfl)).1
        exact Or.inr ⟨a, m', ha, hn'⟩
    · rintro (rfl | ⟨a, m', ha, hn'⟩)
      · exact ⟨place, m, .refl, hn⟩
      · exact ⟨a, m', .head ⟨m, hnext⟩ ha, hn'⟩
  · -- the counts further down the chain are higher
    rintro ⟨a, m', ha, hn'⟩
    obtain rfl := eq_of_handled hn hn'
    have hle := h.retriesAt_le_of_chain ha
    have hretries := h.retriesAt_of_descends hnext
    omega

/-- The same of what is published: the handling that goes on has published one message. -/
theorem chainPublished_of_next (h : Feeding w topic k e) (hone : e.OneGroup group limit) {m n o : Nat}
    (hn : e.Handled place m n) (hp : (o, n) ∈ k.published) :
    e.chainPublished topic k place = insert (o, n) (e.chainPublished topic k (⟨topic, 0⟩, o)) ∧
      (o, n) ∉ e.chainPublished topic k (⟨topic, 0⟩, o) := by
  obtain ⟨hhandlings, hnot⟩ := h.chainHandlings_of_next hone hn hp
  refine ⟨?_, fun hmem => hnot hmem.2⟩
  ext ⟨o', n'⟩
  rw [Engine.chainPublished, Set.mem_ofPred_eq, hhandlings]
  constructor
  · rintro ⟨hp', rfl | hmem⟩
    · exact Or.inl (List.inj_on_of_nodup_map h.tells.once hp' hp rfl)
    · exact Or.inr ⟨hp', hmem⟩
  · rintro (heq | ⟨hp', hmem⟩)
    · obtain ⟨rfl, rfl⟩ := Prod.mk.inj heq
      exact ⟨hp, Or.inl rfl⟩
    · exact ⟨hp', Or.inr hmem⟩

/-- **Chains.**  When one group has read the topic, all handlers have failed and the producer has taken
every record, a message for the group with a count is handled as often as there are counts from that
up to the limit, and published again once less. -/
theorem encard_chain (h : Feeding w topic k e) (hq : e.IsQuiet w) (hone : e.OneGroup group limit)
    (hfail : e.AllFail) (ht : place.1.topic = topic) (hfor : e.IsFor group place) :
    (e.chainHandlings topic k place).encard = (limit - e.retriesAt place + 1 : Nat) ∧
      (e.chainPublished topic k place).encard = (limit - e.retriesAt place : Nat) := by
  induction hc : limit - e.retriesAt place generalizing place with
  | zero =>
    obtain ⟨m, n, hn⟩ := h.exists_handled hq hone ht hfor
    have hlast : ∀ o, (o, n) ∉ k.published := fun o hp =>
      Nat.not_le.2 ((h.published_iff hq hone hfail hn).1 ⟨o, hp⟩) (Nat.sub_eq_zero_iff_le.1 hc)
    have hhandlings := h.chainHandlings_of_last hone hn hlast
    refine ⟨?_, ?_⟩
    · rw [hhandlings, Set.encard_singleton]
      rfl
    · have hnone : e.chainPublished topic k place = ∅ := by
        rw [Set.eq_empty_iff_forall_notMem]
        rintro ⟨o, n'⟩ ⟨hp, hmem⟩
        rw [hhandlings] at hmem
        obtain rfl : n' = n := hmem
        exact hlast o hp
      rw [hnone, Set.encard_empty]
      rfl
  | succ c ih =>
    obtain ⟨m, n, hn⟩ := h.exists_handled hq hone ht hfor
    obtain ⟨o, hp⟩ := (h.published_iff hq hone hfail hn).2 (by omega)
    have hnext : e.Descends topic k m place (⟨topic, 0⟩, o) := ⟨o, n, rfl, hp, hn⟩
    have hretries := h.retriesAt_of_descends hnext
    have hfirst : ((⟨topic, 0⟩, o) : TopicPartition × Nat).1.topic = topic := rfl
    obtain ⟨ihhandled, ihpublished⟩ := ih hfirst (h.isFor_of_descends hfor hnext) (by omega)
    obtain ⟨hhandlings, hnot⟩ := h.chainHandlings_of_next hone hn hp
    obtain ⟨hpublished, hnot'⟩ := h.chainPublished_of_next hone hn hp
    refine ⟨?_, ?_⟩
    · rw [hhandlings, Set.encard_insert_of_notMem hnot, ihhandled]
      rfl
    · rw [hpublished, Set.encard_insert_of_notMem hnot', ihpublished]
      rfl

end Feeding

end ConsumerGroup
