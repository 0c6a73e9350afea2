import ConsumerGroup.Proofs.Feedback.Ledger
import Mathlib.Combinatorics.Enumerative.DoubleCounting
import Mathlib.Tactic.Ring

/-!
# How much a run can come to

A message that is published descends from the message whose handling failed, and its count is one
higher.  A message has at most one handling per member, so at most one descendant per member, and no
count is beyond the limits.  So the messages from outside bound everything.

* `card_le_of_descends` — the bound on descendants.
* `Feeding.messages_le`, `Feeding.takes_le`, `Feeding.handlings_le` — the bounds on messages, on
  messages that are taken and on handlings.
-/

namespace ConsumerGroup

/-! ## Descendants -/

/-- If everything that is made descends from something of a lower level, through one of `K` ways that
each lead to one descendant, and no level is above `L`, then there is not more than `(K + 1) ^ L`
times what there was at first. -/
theorem card_le_of_descends {α : Type} [DecidableEq α] {born made : Finset α} {K L : Nat}
    (level : α → Nat) (child : Nat → α → α → Prop)
    (hparent : ∀ a ∈ made, ∃ m < K, ∃ p ∈ born ∪ made, child m p a ∧ level p < level a)
    (hunique : ∀ m p a a', child m p a → child m p a' → a = a')
    (hlevel : ∀ a ∈ made, level a ≤ L) :
    (born ∪ made).card ≤ born.card * (K + 1) ^ L := by
  -- what is made up to a level
  have hupto : ∀ c, (born ∪ made.filter (level · ≤ c)).card ≤ born.card * (K + 1) ^ c := by
    intro c
    induction c with
    | zero =>
      have hnone : made.filter (level · ≤ 0) = ∅ := by
        rw [Finset.filter_eq_empty_iff]
        intro a ha
        obtain ⟨m, -, p, -, -, hlt⟩ := hparent a ha
        omega
      rw [hnone, Finset.union_empty, pow_zero, mul_one]
    | succ c ih =>
      have hmade : (made.filter (level · ≤ c + 1)).card ≤
          (Finset.range K ×ˢ (born ∪ made.filter (level · ≤ c))).card := by
        refine Finset.card_le_card_of_forall_subsingleton (fun a x => child x.1 x.2 a) ?_ ?_
        · intro a ha
          obtain ⟨hmem, hle⟩ := Finset.mem_filter.1 ha
          obtain ⟨m, hm, p, hp, hchild, hlt⟩ := hparent a hmem
          refine ⟨(m, p), Finset.mem_product.2 ⟨Finset.mem_range.2 hm, ?_⟩, hchild⟩
          rcases Finset.mem_union.1 hp with hp | hp
          · exact Finset.mem_union_left _ hp
          · exact Finset.mem_union_right _ (Finset.mem_filter.2
              ⟨hp, Nat.le_of_lt_succ (Nat.lt_of_lt_of_le hlt hle)⟩)
        · rintro x - a ⟨-, ha⟩ a' ⟨-, ha'⟩
          exact hunique x.1 x.2 a a' ha ha'
      rw [Finset.card_product, Finset.card_range] at hmade
      have hborn : born.card ≤ (born ∪ made.filter (level · ≤ c)).card :=
        Finset.card_le_card Finset.subset_union_left
      calc (born ∪ made.filter (level · ≤ c + 1)).card
          ≤ born.card + (made.filter (level · ≤ c + 1)).card := Finset.card_union_le _ _
        _ ≤ (born ∪ made.filter (level · ≤ c)).card +
              K * (born ∪ made.filter (level · ≤ c)).card := Nat.add_le_add hborn hmade
        _ = (K + 1) * (born ∪ made.filter (level · ≤ c)).card := by ring
        _ ≤ (K + 1) * (born.card * (K + 1) ^ c) := Nat.mul_le_mul_left _ ih
        _ = born.card * (K + 1) ^ (c + 1) := by ring
  have hall : made.filter (level · ≤ L) = made := Finset.filter_true_of_mem hlevel
  rw [← hall]
  exact hupto L

/-! ## Takes -/

/-- The claim loop that took a message, and the offset of the message. -/
def Event.take? : Event → Option (Nat × Offset)
  | taken i o => some (i, o)
  | _ => none

/-- What was taken, the latest first. -/
def Engine.takes (e : Engine) : List (Nat × Offset) := e.events.filterMap Event.take?

theorem Engine.mem_takes {e : Engine} {i : Nat} {o : Offset} :
    (i, o) ∈ e.takes ↔ .taken i o ∈ e.events := by
  rw [takes, List.mem_filterMap]
  constructor
  · rintro ⟨event, he, htake⟩
    cases event <;> cases htake
    exact he
  · exact fun he => ⟨_, he, rfl⟩

/-- If no claim has taken an offset twice, nothing was taken twice. -/
theorem nodup_filterMap_take {events : List Event}
    (h : ∀ i, (events.filterMap (Event.taken? i)).Nodup) : (events.filterMap Event.take?).Nodup := by
  induction events with
  | nil => exact List.nodup_nil
  | cons event events ih =>
    have hrest := ih fun i => (h i).sublist ((List.sublist_cons_self _ _).filterMap _)
    rw [List.filterMap_cons]
    split
    · exact hrest
    · rename_i take htake
      refine List.nodup_cons.2 ⟨?_, hrest⟩
      cases event <;> cases htake
      rename_i i o
      intro hmem
      obtain ⟨event, he, htake⟩ := List.mem_filterMap.1 hmem
      cases event <;> cases htake
      have hi := h i
      rw [List.filterMap_cons, show Event.taken? i (.taken i o) = some o from if_pos rfl] at hi
      exact (List.nodup_cons.1 hi).1 (List.mem_filterMap.2 ⟨_, he, if_pos rfl⟩)

/-- The count that the message at a place carries. -/
def Engine.retriesAt (e : Engine) (place : TopicPartition × Nat) : Nat :=
  (e.broker.message? place).elim 0 fun m => readRetryTimes (m.headers.get? Headers.retryKey)

/-- Handling number `n` is the one that member number `m` gave to the message at a place. -/
def Engine.Handled (e : Engine) (place : TopicPartition × Nat) (m n : Nat) : Prop :=
  ∃ (t : Handling) (l : ClaimLoop), e.handlings[n]? = some t ∧ e.loops[t.loop]? = some l ∧
    l.member = m ∧ l.source = place.1 ∧ t.envelope.offset = (place.2 : Offset)

/-- The message at `a` is the redelivery of the one at `place` by member number `m`. -/
def Engine.Descends (topic : String) (k : Ledger) (e : Engine) (m : Nat)
    (place a : TopicPartition × Nat) : Prop :=
  ∃ o n, a = (⟨topic, 0⟩, o) ∧ (o, n) ∈ k.published ∧ e.Handled place m n

namespace Feeding

variable {w : World} {topic : String} {k : Ledger} {e : Engine} {i : Nat} {l : ClaimLoop}

/-- Claim loops of one member are for one group. -/
theorem group_eq (h : Feeding w topic k e) {j : Nat} {l' : ClaimLoop} (hl : e.loops[i]? = some l)
    (hl' : e.loops[j]? = some l') (hm : l.member = l'.member) : l.group = l'.group := by
  obtain ⟨member, hmember, hof, -⟩ := h.employer hl
  obtain ⟨member', hmember', hof', -⟩ := h.employer hl'
  rw [hm, hmember'] at hmember
  obtain rfl := Option.some.inj hmember
  rw [hof.group_eq, hof'.group_eq]

theorem nodup_taken (h : Feeding w topic k e) (hl : e.loops[i]? = some l) :
    ((e.view i l).taken i).Nodup :=
  (h.service.reachable hl).nodup_taken (h.ordered hl).nodup

/-- **Once per group.**  A message has at most one handling of a group. -/
theorem handling_unique (h : Feeding w topic k e) {n n' : Nat} {t t' : Handling} {l l' : ClaimLoop}
    (ht : e.handlings[n]? = some t) (ht' : e.handlings[n']? = some t')
    (hl : e.loops[t.loop]? = some l) (hl' : e.loops[t'.loop]? = some l')
    (hg : l.group = l'.group) (hs : l.source = l'.source)
    (ho : t.envelope.offset = t'.envelope.offset) : n = n' := by
  have hloop := h.loop_unique hl hl' hg hs
  exact (h.service.reachable hl).handling_unique (h.nodup_taken hl)
    (Engine.handlingOf?_eq_some.2 ⟨ht, rfl⟩) (Engine.handlingOf?_eq_some.2 ⟨ht', hloop.symm⟩) ho

/-- What was taken is a message of the topic. -/
theorem place_of_take (h : Feeding w topic k e) {o : Offset} (ht : .taken i o ∈ e.events) :
    ∃ l, e.loops[i]? = some l ∧ (l.source, o.toNat) ∈ k.places topic ∧ (o.toNat : Offset) = o := by
  have hi := h.service.sound.claim_lt _ ht i rfl
  have hl : e.loops[i]? = some e.loops[i] := Array.getElem?_eq_getElem hi
  refine ⟨e.loops[i], hl, ?_⟩
  have hprefix := (h.service.reachable hl).inOrder.taken_prefix
  have hmem := hprefix.subset (List.mem_reverse.2 (ClaimView.mem_taken.2 ht))
  obtain ⟨m, hm, hoffset⟩ := List.mem_map.1 hmem
  obtain ⟨o', ho', hmessage⟩ := h.message?_of_arrived hl hm
  obtain rfl : o = (o' : Offset) := hoffset.symm.trans ho'
  rw [Int.toNat_natCast]
  exact ⟨(h.tells.places _).2 ⟨h.source_topic hl, by rw [hmessage]; rfl⟩, rfl⟩

/-- **Takes.**  Each member takes a message once. -/
theorem takes_le (h : Feeding w topic k e) :
    e.takes.length ≤ e.members.size * (k.places topic).length := by
  have hnodup : e.takes.Nodup := by
    refine nodup_filterMap_take fun i => ?_
    rcases hl : e.loops[i]? with _ | l
    · rw [List.filterMap_eq_nil_iff.2 fun event he => ?_]
      · exact List.nodup_nil
      · rcases htake : Event.taken? i event with _ | o
        · rfl
        · cases event <;> simp only [Event.taken?, reduceCtorEq] at htake
          split at htake
          · rename_i j o' hj
            subst hj
            obtain ⟨l, hl', -⟩ := h.place_of_take he
            rw [hl] at hl'
            cases hl'
          · cases htake
    · exact h.nodup_taken hl
  rw [← List.toFinset_card_of_nodup hnodup, ← List.toFinset_card_of_nodup h.tells.nodup,
    ← Finset.card_range e.members.size, ← Finset.card_product]
  refine Finset.card_le_card_of_forall_subsingleton (fun x y => ∃ l, e.loops[x.1]? = some l ∧
    l.member = y.1 ∧ l.source = y.2.1 ∧ x.2 = (y.2.2 : Offset)) ?_ ?_
  · rintro ⟨i, o⟩ hx
    obtain ⟨l, hl, hplace, ho⟩ := h.place_of_take (Engine.mem_takes.1 (List.mem_toFinset.1 hx))
    obtain ⟨member, hm, -⟩ := h.employer hl
    exact ⟨(l.member, l.source, o.toNat), Finset.mem_product.2
      ⟨Finset.mem_range.2 (Array.getElem?_eq_some_iff.1 hm).1, List.mem_toFinset.2 hplace⟩, l, hl, rfl,
      rfl, ho.symm⟩
  · rintro y - ⟨i, o⟩ ⟨-, l, hl, hm, hs, ho⟩ ⟨i', o'⟩ ⟨-, l', hl', hm', hs', ho'⟩
    have hi := h.loop_unique hl hl' (h.group_eq hl hl' (hm.trans hm'.symm)) (hs.trans hs'.symm)
    exact Prod.ext hi (ho.trans ho'.symm)

/-- A message that has a handling was taken. -/
theorem taken_of_handling (h : Feeding w topic k e) {n : Nat} {t : Handling} {l : ClaimLoop}
    (ht : e.handlings[n]? = some t) (hl : e.loops[t.loop]? = some l) :
    .taken t.loop t.envelope.offset ∈ e.events := by
  have hr := h.service.reachable hl
  obtain ⟨left, hleft⟩ := hr.accounted
  have hentered : .entered t.loop t.envelope.offset n ∈ e.events :=
    (hr.recorded.entered_iff _ n).2 ⟨t, Engine.handlingOf?_eq_some.2 ⟨ht, rfl⟩, rfl⟩
  refine ClaimView.mem_taken.1 (hleft.perm.mem_iff.2 (List.mem_append_left _
    (List.mem_append_right _ (ClaimView.mem_entered.2 ⟨n, hentered⟩))))

theorem handlings_le_takes (h : Feeding w topic k e) : e.handlings.size ≤ e.takes.length := by
  have hloop : ∀ {n : Nat} {t : Handling}, e.handlings[n]? = some t →
      ∃ l, e.loops[t.loop]? = some l :=
    fun ht => ⟨_, Array.getElem?_eq_getElem (h.service.sound.loop_lt _ _ ht)⟩
  rw [← Finset.card_range e.handlings.size]
  refine Nat.le_trans (Finset.card_le_card_of_forall_subsingleton (fun n x => ∃ t,
    e.handlings[n]? = some t ∧ x = (t.loop, t.envelope.offset)) ?_ ?_)
    (List.toFinset_card_le e.takes)
  · intro n hn
    have ht := Array.getElem?_eq_getElem (Finset.mem_range.1 hn)
    obtain ⟨l, hl⟩ := hloop ht
    exact ⟨_, List.mem_toFinset.2 (Engine.mem_takes.2 (h.taken_of_handling ht hl)), _, ht, rfl⟩
  · rintro x - n ⟨-, t, ht, rfl⟩ n' ⟨-, t', ht', hx⟩
    obtain ⟨hl, ho⟩ := Prod.mk.inj hx
    obtain ⟨l, hloop⟩ := hloop ht
    exact h.handling_unique ht ht' hloop (hl ▸ hloop) rfl rfl ho

/-! ## Messages -/

/-- Each handling is that of a message at some place. -/
theorem exists_place (h : Feeding w topic k e) {n : Nat} {t : Handling} {l : ClaimLoop}
    (ht : e.handlings[n]? = some t) (hl : e.loops[t.loop]? = some l) :
    ∃ place, e.Handled place l.member n := by
  obtain ⟨o, -, -, -, ho, -⟩ := h.holds ht hl
  exact ⟨(l.source, o), t, l, ht, hl, rfl, rfl, ho⟩

/-- **Handled.**  There is a message at the place, and the handling knows its count. -/
theorem of_handled (h : Feeding w topic k e) {place : TopicPartition × Nat} {m n : Nat}
    (hn : e.Handled place m n) :
    ∃ (t : Handling) (l : ClaimLoop) (message : Message) (fresh : TraceId),
      e.handlings[n]? = some t ∧ e.loops[t.loop]? = some l ∧ l.member = m ∧
      place ∈ k.places topic ∧ e.broker.message? place = some message ∧
      t.envelope = .ofMessage fresh place.1 message ∧ t.envelope.retryTimes = e.retriesAt place := by
  obtain ⟨t, l, ht, hl, hm, hs, ho⟩ := hn
  obtain ⟨o, message, fresh, -, ho', hmessage, henvelope, -⟩ := h.holds ht hl
  obtain rfl : place = (l.source, o) := Prod.ext hs.symm (Int.ofNat_inj.1 (ho.symm.trans ho'))
  refine ⟨t, l, message, fresh, ht, hl, hm, ?_, hmessage, henvelope, ?_⟩
  · exact (h.tells.places _).2 ⟨h.source_topic hl, by rw [hmessage]; rfl⟩
  · rw [Engine.retriesAt, hmessage, henvelope]
    rfl

/-- **Counts.**  A message that was published carries a count that is one above that of the message it
redelivers, and at most the limit of the member that redelivers it. -/
theorem count_of_published (h : Feeding w topic k e) {place : TopicPartition × Nat} {m o n : Nat}
    (hp : (o, n) ∈ k.published) (hn : e.Handled place m n) :
    ∃ (member : Member) (message : Message), e.members[m]? = some member ∧
      e.broker.message? (⟨topic, 0⟩, o) = some message ∧
      message.headers.get? Headers.retryKey = some (Nat.repr (e.retriesAt place + 1)) ∧
      e.retriesAt place + 1 ≤ member.config.retryLimit ∧
      e.retriesAt (⟨topic, 0⟩, o) = e.retriesAt place + 1 := by
  obtain ⟨t, l, -, -, ht, hl, rfl, -, -, -, hretries⟩ := h.of_handled hn
  obtain ⟨t', l', message, ht', -, hl', hlt, hmessage, hheaders⟩ := h.tells.made _ hp
  obtain rfl := Option.some.inj (ht.symm.trans ht')
  obtain rfl := Option.some.inj (hl.symm.trans hl')
  obtain ⟨member, hmember, hof, hredelivers⟩ := h.employer hl
  rw [hretries, hof.redeliverer_eq] at hlt
  have hcount : message.headers.get? Headers.retryKey = some (Nat.repr (e.retriesAt place + 1)) := by
    rw [← hretries] at hlt ⊢
    rw [hheaders, Redeliverer.get?_retryKey_of_lt (Nat.lt_of_lt_of_le hlt hredelivers.retryLimit_le)]
  refine ⟨member, message, hmember, hmessage, hcount, hlt, ?_⟩
  change e.broker.message? (⟨topic, 0⟩, o) = some message at hmessage
  rw [Engine.retriesAt, hmessage, Option.elim_some, hcount]
  exact readRetryTimes_repr (Nat.le_trans hlt hredelivers.retryLimit_le)

/-- What was published was published by the handling of a message. -/
theorem handled_of_published (h : Feeding w topic k e) {o n : Nat} (hp : (o, n) ∈ k.published) :
    ∃ m < e.members.size, ∃ place, e.Handled place m n := by
  obtain ⟨t, l, -, ht, -, hl, -⟩ := h.tells.made _ hp
  obtain ⟨place, hn⟩ := h.exists_place ht hl
  obtain ⟨member, hm, -⟩ := h.employer hl
  exact ⟨l.member, (Array.getElem?_eq_some_iff.1 hm).1, place, hn⟩

/-- A redelivery carries a count that is one higher. -/
theorem retriesAt_of_descends (h : Feeding w topic k e) {m : Nat} {place a : TopicPartition × Nat}
    (ha : e.Descends topic k m place a) : e.retriesAt a = e.retriesAt place + 1 := by
  obtain ⟨o, n, rfl, hp, hn⟩ := ha
  obtain ⟨-, -, -, -, -, -, hretries⟩ := h.count_of_published hp hn
  exact hretries

/-- A message has one redelivery by a member. -/
theorem descends_unique (h : Feeding w topic k e) {m : Nat} {place a a' : TopicPartition × Nat}
    (ha : e.Descends topic k m place a) (ha' : e.Descends topic k m place a') : a = a' := by
  obtain ⟨o, n, rfl, hp, t, l, ht, hl, hm, hs, ho⟩ := ha
  obtain ⟨o', n', rfl, hp', t', l', ht', hl', hm', hs', ho'⟩ := ha'
  obtain rfl := h.handling_unique ht ht' hl hl' (h.group_eq hl hl' (hm.trans hm'.symm))
    (hs.trans hs'.symm) (ho.trans ho'.symm)
  have heq : (o, n) = (o', n) := List.inj_on_of_nodup_map h.tells.once hp hp' rfl
  rw [(Prod.mk.inj heq).1]

/-- **Messages.**  The messages that came in from outside bound those that are published, whatever they
carry. -/
theorem messages_le (h : Feeding w topic k e) {limit : Nat}
    (hlimit : ∀ member ∈ e.members.toList, member.config.retryLimit ≤ limit) :
    (k.places topic).length ≤ k.delivered.length * (e.members.size + 1) ^ limit := by
  let made : List (TopicPartition × Nat) := k.published.map fun p => (⟨topic, 0⟩, p.1)
  have hsplit : (k.places topic).toFinset = k.delivered.toFinset ∪ made.toFinset :=
    List.toFinset_append
  have hbound : (k.delivered.toFinset ∪ made.toFinset).card ≤
      k.delivered.toFinset.card * (e.members.size + 1) ^ limit := by
    refine card_le_of_descends e.retriesAt (e.Descends topic k) ?_
      (fun m place a a' => h.descends_unique) ?_
    · intro a ha
      obtain ⟨⟨o, n⟩, hp, rfl⟩ := List.mem_map.1 (List.mem_toFinset.1 ha)
      obtain ⟨m, hm, place, hn⟩ := h.handled_of_published hp
      obtain ⟨-, -, -, -, -, -, -, hplace, -⟩ := h.of_handled hn
      have hdescends : e.Descends topic k m place (⟨topic, 0⟩, o) := ⟨o, n, rfl, hp, hn⟩
      exact ⟨m, hm, place, hsplit ▸ List.mem_toFinset.2 hplace, hdescends,
        h.retriesAt_of_descends hdescends ▸ Nat.lt_succ_self _⟩
    · intro a ha
      obtain ⟨⟨o, n⟩, hp, rfl⟩ := List.mem_map.1 (List.mem_toFinset.1 ha)
      obtain ⟨m, -, place, hn⟩ := h.handled_of_published hp
      obtain ⟨member, -, hm, -, -, hle, hretries⟩ := h.count_of_published hp hn
      rw [hretries]
      exact Nat.le_trans hle
        (hlimit member (Array.mem_toList_iff.2 (Array.mem_of_getElem? hm)))
  rw [← List.toFinset_card_of_nodup h.tells.nodup, hsplit]
  exact Nat.le_trans hbound (Nat.mul_le_mul_right _ (List.toFinset_card_le _))

/-- **Handlings.**  The messages that came in from outside bound the handlings, too. -/
theorem handlings_le (h : Feeding w topic k e) {limit : Nat}
    (hlimit : ∀ member ∈ e.members.toList, member.config.retryLimit ≤ limit) :
    e.handlings.size ≤ e.takes.length ∧ e.takes.length ≤
      e.members.size * (k.delivered.length * (e.members.size + 1) ^ limit) :=
  ⟨h.handlings_le_takes,
    Nat.le_trans h.takes_le (Nat.mul_le_mul_left _ (h.messages_le hlimit))⟩

end Feeding

end ConsumerGroup
