import ConsumerGroup.Proofs.Claim.Marks
import ConsumerGroup.Proofs.Engine.Advance
import ConsumerGroup.Proofs.Engine.Scripts

/-!
# Marks are safe

Handlers of a claim end in any order, some after their claim loop has ended, and the loop passes over
messages meanwhile.  Whatever the order, the offset that is marked never passes a message that is not
done: `marks_are_safe`.
-/

namespace ConsumerGroup.Engine

variable {w : World} {e₀ e : Engine} {i : Nat} {l : ClaimLoop}

/-- The low watermark stays in range when the offsets do. -/
theorem low_le_maxOffset {v : ClaimView} (hr : v.Reachable w i)
    (hmax : ∀ m ∈ v.arrived, m.offset < Tracker.maxOffset) :
    v.loop.tracker.low ≤ Tracker.maxOffset := by
  have hhigh : v.loop.tracker.high < Tracker.maxOffset := by
    rcases hr.high_arrived with hhigh | ⟨m, hm, hoff⟩
    · rw [hhigh]
      decide
    · exact hoff ▸ hmax m hm
  have hnext := hr.exact.low_le_next
  rw [Offset.next] at hnext
  lia

/-- **Safe marks.**  Let the messages of claim number `i` come in in order.  Whenever it has marked
`c`, then at any time from then on

* no handling of the claim that is not done is below `c`, nor a message that waits for a token, nor
  one that was not taken yet, nor any other that is not settled;
* all messages below `c` had been settled when it was marked, and one that was passed over is for
  another group;
* the marks before it were smaller;
* and it fits 64 bits if the offsets of the messages do. -/
theorem marks_are_safe (h₀ : e₀.IsFresh) (hrun : Run w e₀ e) (hl : e.loops[i]? = some l)
    (ho : (e.view i l).Ordered) {c : Offset} {earlier : List Event}
    (hc : .marked i c :: earlier <:+ e.events) :
    (∀ (n : Nat) (t : Handling), e.handlings[n]? = some t → t.loop = i → t.phase ≠ .done →
      c ≤ t.envelope.offset) ∧
    (∀ env, l.phase = .parked env → c ≤ env.offset) ∧
    (∀ m ∈ (e.broker.channel l.channel).arrived, .taken i m.offset ∉ e.events → c ≤ m.offset) ∧
    (∀ m ∈ (e.broker.channel l.channel).arrived, ¬ Settled i e.events m.offset → c ≤ m.offset) ∧
    (∀ m ∈ (e.broker.channel l.channel).arrived, m.offset < c → Settled i earlier m.offset) ∧
    (∀ m ∈ (e.broker.channel l.channel).arrived, .skipped i m.offset ∈ e.events →
      ∀ fresh, (Envelope.ofMessage fresh l.source m).isAddressedTo l.group = false) ∧
    (∀ c', .marked i c' ∈ earlier → c' < c) ∧
    ((∀ m ∈ (e.broker.channel l.channel).arrived, m.offset < Tracker.maxOffset) →
      c ≤ Tracker.maxOffset) := by
  have hr := reachable_of_run h₀ hrun hl
  have hsafe := hr.safe ho
  have hlow := hsafe.le_low c (hc.subset List.mem_cons_self)
  have hsettled := hsafe.settled c earlier hc
  have hopen : ∀ m ∈ (e.broker.channel l.channel).arrived, ¬ Settled i e.events m.offset →
      c ≤ m.offset := by
    intro m hm hnot
    by_contra hlt
    refine hnot ((hsettled m hm (by lia)).mono ?_)
    intro event he
    exact hc.subset (List.mem_cons_of_mem _ he)
  have hskipped : ∀ m ∈ (e.broker.channel l.channel).arrived, .skipped i m.offset ∈ e.events →
      ∀ fresh, (Envelope.ofMessage fresh l.source m).isAddressedTo l.group = false := by
    intro m hm hs fresh
    exact hr.not_isAddressed_of_skipped ho hm hs fresh
  refine ⟨?_, ?_, ?_, hopen, hsettled, hskipped, hsafe.increasing c earlier hc, ?_⟩
  · intro n t ht hloop hp
    have ht' : (e.view i l).handling? n = some t := handlingOf?_eq_some.2 ⟨ht, hloop⟩
    exact Int.le_trans hlow (hr.low_le_running ho ht' hp)
  · intro env hp
    have hhigh := hr.high_lt_parked ho hp
    have hnext := hr.exact.low_le_next
    rw [Offset.next] at hnext
    lia
  · intro m hm ht
    obtain ⟨left, hleft⟩ := hr.accounted
    have hmem := mt hleft.perm.mem_iff.2 (mt ClaimView.mem_taken.1 ht)
    simp only [List.mem_append, not_or] at hmem
    exact Int.le_trans hlow (hr.low_le_waiting ho hm hmem.1.1 hmem.1.2)
  · intro hmax
    exact Int.le_trans hlow (low_le_maxOffset hr hmax)

/-- Two messages whose handlers end in the wrong order. -/
def wrongOrder : List Happening :=
  [.act (.createTopic "t" 1), .act (.start .sample),
    .task (.member 0), .task (.member 0), .act (.deliver ⟨"t", 0⟩ .empty ⟨[]⟩),
    .act (.deliver ⟨"t", 0⟩ .empty ⟨[]⟩), .task (.loop 0), .task (.loop 0), .task (.handling 0),
    .task (.handling 1), .act (.release 1), .task (.handling 1), .act (.release 0), .task (.handling 0)]

/-- When the second handler has ended nothing is marked; when the first has, both are passed. -/
theorem marks_are_safe_wrongOrder : ∃ earlier,
    (play .holding {} wrongOrder).events = .marked 0 2 :: earlier ∧
      Settled 0 earlier 0 ∧ Settled 0 earlier 1 := by
  have hloop : ((play .holding {} wrongOrder).loops[0]?).map ClaimLoop.channel = some 0 := by
    decide +kernel
  obtain ⟨l, hl, hchannel⟩ := Option.map_eq_some_iff.1 hloop
  have hevents : (play .holding {} wrongOrder).events =
      .marked 0 2 :: (play .holding {} wrongOrder).events.tail := by decide +kernel
  have hoffsets : ((play .holding {} wrongOrder).view 0 l).arrived.map Message.offset = [0, 1] := by
    rw [arrived_view, hchannel]
    decide +kernel
  have ho : ((play .holding {} wrongOrder).view 0 l).Ordered := by
    refine ⟨hoffsets ▸ by decide, ?_⟩
    intro m hm
    have hmem := List.mem_map_of_mem (f := Message.offset) hm
    rw [hoffsets] at hmem
    simp only [List.mem_cons, List.not_mem_nil, or_false] at hmem
    lia
  have hmark : .marked 0 2 :: (play .holding {} wrongOrder).events.tail <:+
      (play .holding {} wrongOrder).events := ⟨[], hevents.symm⟩
  obtain ⟨-, -, -, -, hsettled, -⟩ :=
    marks_are_safe isFresh_empty (run_play wrongOrder {}) hl ho hmark
  have hbelow : ∀ o ∈ [0, 1], Settled 0 (play .holding {} wrongOrder).events.tail o := by
    rw [← hoffsets]
    intro o hmem
    obtain ⟨m, hm, rfl⟩ := List.mem_map.1 hmem
    apply hsettled m hm
    rw [hoffsets] at hmem
    simp only [List.mem_cons, List.not_mem_nil, or_false] at hmem
    lia
  exact ⟨_, hevents, hbelow 0 (by simp), hbelow 1 (by simp)⟩

end ConsumerGroup.Engine
