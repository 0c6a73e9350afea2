import ConsumerGroup.Tracker
import Mathlib.Order.Basic
import Mathlib.Data.List.Basic

/-!
# Watermarks

A tracker computes its low watermark anew only when the message at it completes.  This module shows
that the shortcut is exact, whatever is entered, completed and passed over, and in whatever order:

* `Exact` — the low watermark is what a computation from scratch gives, and no offset in flight
  lies above the high watermark.  Every operation keeps that.
* `seen` — the offsets that a history counts for the high watermark: those that were entered, and
  those that were passed over while nothing was in flight.
* `replay_exact` — both watermarks after any history, and what completing a message says then.
-/

namespace ConsumerGroup.Tracker

variable {α : Type}

/-! ## Exact watermarks -/

/-- The low watermark computed from scratch: the smallest offset in flight, or the one after the high
watermark when nothing is in flight. -/
def naiveLow (t : Tracker α) : Offset := t.inFlight.keys.min?.getD t.high.next

/-- The watermarks of a tracker are exact. -/
structure Exact (t : Tracker α) : Prop where
  /-- no offset is in flight twice -/
  nodup : t.inFlight.keys.Nodup
  /-- what is in flight has been seen -/
  le_high : ∀ o ∈ t.inFlight.keys, o ≤ t.high
  /-- the shortcut loses nothing -/
  low_eq : t.low = t.naiveLow

theorem isIdle_iff {t : Tracker α} : t.isIdle = true ↔ t.inFlight.keys = [] := by
  rw [isIdle, List.isEmpty_iff, Table.keys, List.map_eq_nil_iff]

/-- With nothing in flight the low watermark follows the high one. -/
theorem Exact.low_of_idle {t : Tracker α} (h : t.Exact) (hi : t.isIdle = true) :
    t.low = t.high.next := by
  rw [h.low_eq, naiveLow, isIdle_iff.1 hi]
  rfl

/-- With something in flight the low watermark is the smallest offset in flight. -/
theorem Exact.min?_eq {t : Tracker α} (h : t.Exact) (hi : t.isIdle = false) :
    t.inFlight.keys.min? = some t.low := by
  rcases hm : t.inFlight.keys.min? with _ | o
  · rw [List.min?_eq_none_iff, ← isIdle_iff, hi] at hm
    cases hm
  · rw [h.low_eq, naiveLow, hm]
    rfl

theorem Exact.low_mem {t : Tracker α} (h : t.Exact) (hi : t.isIdle = false) :
    t.low ∈ t.inFlight.keys :=
  (List.min?_eq_some_iff.1 (h.min?_eq hi)).1

/-- Nothing in flight lies below the low watermark. -/
theorem Exact.low_le {t : Tracker α} (h : t.Exact) {o : Offset} (ho : o ∈ t.inFlight.keys) :
    t.low ≤ o := by
  have hi : t.isIdle = false := by
    rw [← Bool.not_eq_true, isIdle_iff]
    exact List.ne_nil_of_mem ho
  exact (List.min?_eq_some_iff.1 (h.min?_eq hi)).2 o ho

/-- The low watermark is at most one above the high one. -/
theorem Exact.low_le_next {t : Tracker α} (h : t.Exact) : t.low ≤ t.high.next := by
  rcases hi : t.isIdle with _ | _
  · have := h.le_high _ (h.low_mem hi)
    rw [Offset.next]
    lia
  · exact Int.le_of_eq (h.low_of_idle hi)

/-- A smallest element of a list is what a computation from scratch finds. -/
theorem naiveLow_eq_of_least {t : Tracker α} {o : Offset} (ho : o ∈ t.inFlight.keys)
    (hle : ∀ o' ∈ t.inFlight.keys, o ≤ o') : t.naiveLow = o := by
  have hm : t.inFlight.keys.min? = some o := List.min?_eq_some_iff.2 ⟨ho, hle⟩
  rw [naiveLow, hm]
  rfl

/-! ## What the operations keep -/

theorem exact_empty : ({} : Tracker α).Exact where
  nodup := List.nodup_nil
  le_high := fun _ h => absurd h List.not_mem_nil
  low_eq := rfl

@[simp] theorem high_enter (t : Tracker α) (o : Offset) (a : α) :
    (t.enter o a).high = max t.high o := rfl

theorem mem_keys_enter {t : Tracker α} {o o' : Offset} {a : α} :
    o' ∈ (t.enter o a).inFlight.keys ↔ o' = o ∨ o' ∈ t.inFlight.keys :=
  Table.mem_keys_insert t.inFlight o o' a

theorem Exact.enter {t : Tracker α} (h : t.Exact) (o : Offset) (a : α) : (t.enter o a).Exact where
  nodup := Table.nodup_keys_insert h.nodup o a
  le_high := by
    intro o' ho'
    rw [high_enter]
    rcases mem_keys_enter.1 ho' with rfl | ho'
    · exact Int.le_max_right _ _
    · exact Int.le_trans (h.le_high o' ho') (Int.le_max_left _ _)
  low_eq := by
    symm
    refine naiveLow_eq_of_least ?_ ?_
    · by_cases hlow : (t.isIdle || o < t.low) = true
      · simp [Tracker.enter, hlow, Table.mem_keys_insert]
      · -- the low watermark stays, and what it stands at is still in flight
        have hi : t.isIdle = false := by simp_all
        simpa [Tracker.enter, hlow, Table.mem_keys_insert] using Or.inr (h.low_mem hi)
    · intro o' ho'
      rcases mem_keys_enter.1 ho' with rfl | ho'
      · rw [Tracker.enter]
        split
        · exact Int.le_refl _
        · simp_all
      · have hle := h.low_le ho'
        rw [Tracker.enter]
        split
        · rename_i hlow
          rcases Bool.or_eq_true_iff.1 hlow with hi | hlt
          · rw [isIdle_iff.1 hi] at ho'
            cases ho'
          · have := of_decide_eq_true hlt
            simp only
            lia
        · exact hle

/-- A message is completed when it is in flight. -/
theorem complete_eq_none_iff {t : Tracker α} {o : Offset} :
    t.complete o = none ↔ o ∉ t.inFlight.keys := by
  rw [complete, ← Table.contains_iff_mem_keys]
  split <;> simp_all

/-- What completing a message that is in flight says and leaves. -/
theorem eq_of_complete {t t' : Tracker α} {o : Offset} {c : Completion}
    (h : t.complete o = some (c, t')) :
    o ∈ t.inFlight.keys ∧ c.offset = o ∧ c.low = t'.low ∧ t'.high = t.high ∧
      t'.inFlight = t.inFlight.erase o ∧
      t'.low = if o ≤ t.low then t'.naiveLow else t.low := by
  have hmem : o ∈ t.inFlight.keys := by
    by_contra hn
    rw [complete_eq_none_iff.2 hn] at h
    cases h
  rw [complete, if_pos ((Table.contains_iff_mem_keys t.inFlight o).2 hmem)] at h
  obtain ⟨rfl, rfl⟩ := Prod.mk.inj (Option.some.inj h)
  exact ⟨hmem, rfl, rfl, rfl, rfl, rfl⟩

theorem mem_keys_of_complete {t t' : Tracker α} {o o' : Offset} {c : Completion}
    (h : t.complete o = some (c, t')) :
    o' ∈ t'.inFlight.keys ↔ o' ∈ t.inFlight.keys ∧ o' ≠ o := by
  obtain ⟨-, -, -, -, hin, -⟩ := eq_of_complete h
  rw [hin, Table.mem_keys_erase]

theorem Exact.complete {t t' : Tracker α} (ht : t.Exact) {o : Offset} {c : Completion}
    (h : t.complete o = some (c, t')) : t'.Exact := by
  obtain ⟨hmem, -, -, hhigh, hin, hlow⟩ := eq_of_complete h
  refine ⟨?_, ?_, ?_⟩
  · rw [hin]
    exact Table.nodup_keys_erase ht.nodup o
  · intro o' ho'
    rw [hhigh]
    exact ht.le_high o' ((mem_keys_of_complete h).1 ho').1
  · by_cases hle : o ≤ t.low
    · rw [hlow, if_pos hle]
    · -- the message at the low watermark is another one, and still in flight
      rw [if_neg hle] at hlow
      have hne : t.low ≠ o := fun he => hle (Int.le_of_eq he.symm)
      have hi : t.isIdle = false := by
        rw [← Bool.not_eq_true, isIdle_iff]
        exact List.ne_nil_of_mem hmem
      rw [hlow]
      symm
      refine naiveLow_eq_of_least ((mem_keys_of_complete h).2 ⟨ht.low_mem hi, hne⟩) ?_
      intro o' ho'
      exact ht.low_le ((mem_keys_of_complete h).1 ho').1

/-- What passing over a message comes to. -/
theorem skip_eq (t : Tracker α) (o : Offset) :
    t.skip o = if t.isIdle = true then
        (some (max t.high o).next, { t with high := max t.high o, low := (max t.high o).next })
      else (none, t) := rfl

/-- What is marked for a message that is passed over passes it. -/
theorem lt_of_skip {t t' : Tracker α} {o n : Offset} (h : t.skip o = (some n, t')) : o < n := by
  rw [skip_eq] at h
  split at h
  · obtain rfl := Option.some.inj (Prod.mk.inj h).1
    rw [Offset.next]
    lia
  · cases h

theorem Exact.skip {t : Tracker α} (h : t.Exact) (o : Offset) : (t.skip o).2.Exact := by
  rw [skip_eq]
  split
  · rename_i hi
    have hnil := isIdle_iff.1 hi
    refine ⟨h.nodup, ?_, ?_⟩
    · intro o' ho'
      rw [hnil] at ho'
      cases ho'
    · rw [naiveLow, hnil]
      rfl
  · exact h

/-! ## When a completion is marked -/

/-- What completing a message in flight comes to. -/
structure Completes (t : Tracker α) (o : Offset) (c : Completion) (t' : Tracker α) : Prop where
  /-- the completion tells which message it is about -/
  offset : c.offset = o
  /-- that message leaves, and no other -/
  get?_eq : ∀ o', t'.inFlight.get? o' = if o' = o then none else t.inFlight.get? o'
  /-- the high watermark stays -/
  high_eq : t'.high = t.high
  /-- an offset is marked exactly if the message was the one at the low watermark -/
  isSome_commit? : c.commit?.isSome = true ↔ t.inFlight.keys.min? = some o
  /-- what is marked is the smallest offset that is left, or the one after the high watermark -/
  commit?_eq : ∀ n, c.commit? = some n → n = t'.inFlight.keys.min?.getD t'.high.next

/-- What is marked for a message that is completed passes it. -/
theorem lt_of_complete {t t' : Tracker α} {o n : Offset} {c : Completion}
    (h : t.complete o = some (c, t')) (hn : c.commit? = some n) : o < n := by
  obtain ⟨-, hoff, -⟩ := eq_of_complete h
  rw [Completion.commit?, hoff] at hn
  split at hn
  · rename_i hlt
    exact Option.some.inj hn ▸ hlt
  · cases hn

/-- After the smallest offset has left, the low watermark lies above it. -/
theorem Exact.lt_low_of_complete {t t' : Tracker α} (ht : t.Exact) {o : Offset} {c : Completion}
    (h : t.complete o = some (c, t')) (ho : o = t.low) : o < t'.low := by
  obtain ⟨hmem, -, -, hhigh, -, -⟩ := eq_of_complete h
  have ht' := ht.complete h
  rcases hi : t'.isIdle with _ | _
  · obtain ⟨hm, hne⟩ := (mem_keys_of_complete h).1 (ht'.low_mem hi)
    have := ht.low_le hm
    lia
  · have := ht.le_high o hmem
    rw [ht'.low_of_idle hi, hhigh, Offset.next]
    lia

/-- A message above the low watermark leaves it where it is. -/
theorem low_eq_of_complete {t t' : Tracker α} {o : Offset} {c : Completion}
    (h : t.complete o = some (c, t')) (ho : t.low < o) : t'.low = t.low := by
  obtain ⟨-, -, -, -, -, hlow⟩ := eq_of_complete h
  rw [hlow, if_neg (by lia)]

/-- The offset to mark is the low watermark, and is due when the message was the one at it. -/
theorem Exact.commit?_eq_some_iff {t t' : Tracker α} (ht : t.Exact) {o n : Offset} {c : Completion}
    (h : t.complete o = some (c, t')) : c.commit? = some n ↔ o = t.low ∧ n = t'.low := by
  obtain ⟨hmem, hoff, hclow, -, -, -⟩ := eq_of_complete h
  have hle := ht.low_le hmem
  rw [Completion.commit?, hoff, hclow]
  constructor
  · intro hc
    split at hc
    · rename_i hlt
      refine ⟨?_, (Option.some.inj hc).symm⟩
      by_contra hne
      have := low_eq_of_complete h (by lia)
      lia
    · cases hc
  · rintro ⟨ho, rfl⟩
    rw [if_pos (ht.lt_low_of_complete h ho)]

theorem Exact.completes {t t' : Tracker α} (ht : t.Exact) {o : Offset} {c : Completion}
    (h : t.complete o = some (c, t')) : Completes t o c t' := by
  obtain ⟨hmem, hoff, -, hhigh, hin, -⟩ := eq_of_complete h
  have hi : t.isIdle = false := by
    rw [← Bool.not_eq_true, isIdle_iff]
    exact List.ne_nil_of_mem hmem
  refine ⟨hoff, ?_, hhigh, ?_, ?_⟩
  · intro o'
    rw [hin, Table.get?_erase]
  · rw [ht.min?_eq hi, Option.some_inj, Option.isSome_iff_exists]
    constructor
    · rintro ⟨n, hn⟩
      exact ((ht.commit?_eq_some_iff h).1 hn).1.symm
    · intro ho
      exact ⟨t'.low, (ht.commit?_eq_some_iff h).2 ⟨ho.symm, rfl⟩⟩
  · intro n hn
    rw [((ht.commit?_eq_some_iff h).1 hn).2]
    exact (ht.complete h).low_eq

/-! ## Histories -/

/-- Something that is done with a tracker. -/
inductive Op (α : Type) where
  /-- a message is entered -/
  | enter (o : Offset) (a : α)
  /-- a message is completed -/
  | complete (o : Offset)
  /-- a message is passed over -/
  | skip (o : Offset)

/-- The offset that is meant. -/
def Op.offset : Op α → Offset
  | enter o _ => o
  | complete o => o
  | skip o => o

/-- The tracker afterwards; completing a message that is not in flight leaves it as it is. -/
def apply (t : Tracker α) : Op α → Tracker α
  | .enter o a => t.enter o a
  | .complete o =>
    match t.complete o with
    | some (_, t') => t'
    | none => t
  | .skip o => (t.skip o).2

/-- The tracker after a history that began with nothing. -/
def replay (ops : List (Op α)) : Tracker α := ops.foldl apply {}

/-- The offset that counts for the high watermark, if there is one. -/
def sees? (t : Tracker α) : Op α → Option Offset
  | .enter o _ => some o
  | .complete _ => none
  | .skip o => if t.isIdle then some o else none

/-- All offsets that count for the high watermark in the course of a history. -/
def seen (t : Tracker α) : List (Op α) → List Offset
  | [] => []
  | op :: ops => (t.sees? op).toList ++ seen (t.apply op) ops

theorem Exact.apply {t : Tracker α} (h : t.Exact) (op : Op α) : (t.apply op).Exact := by
  cases op with
  | enter o a => exact h.enter o a
  | complete o =>
    rw [Tracker.apply]
    split
    · rename_i hc
      exact h.complete hc
    · exact h
  | skip o => exact h.skip o

theorem Exact.foldl {t : Tracker α} (h : t.Exact) (ops : List (Op α)) :
    (ops.foldl Tracker.apply t).Exact := by
  induction ops generalizing t with
  | nil => exact h
  | cons op ops ih => exact ih (h.apply op)

/-- **Exactness.**  The watermarks are exact after every history. -/
theorem exact_replay (ops : List (Op α)) : (replay ops).Exact := exact_empty.foldl ops

/-- An operation moves the high watermark up to the offset that counts, if there is one. -/
theorem high_apply (t : Tracker α) (op : Op α) :
    (t.apply op).high = ((t.sees? op).map (max t.high)).getD t.high := by
  cases op with
  | enter o a => rfl
  | complete o =>
    rw [apply]
    split
    · rename_i hc
      obtain ⟨-, -, -, hhigh, -, -⟩ := eq_of_complete hc
      exact hhigh
    · rfl
  | skip o =>
    rw [apply, skip_eq, sees?]
    split <;> rfl

theorem max?_seen (t : Tracker α) (ops : List (Op α)) :
    (t.high :: seen t ops).max? = some (ops.foldl apply t).high := by
  induction ops generalizing t with
  | nil => rfl
  | cons op ops ih =>
    obtain ⟨hmem, hle⟩ := List.max?_eq_some_iff.1 (ih (t.apply op))
    rw [List.max?_eq_some_iff, List.foldl_cons, seen]
    rw [high_apply] at hmem hle
    rcases ho : t.sees? op with _ | o
    · rw [ho] at hmem hle
      exact ⟨hmem, hle⟩
    · rw [ho] at hmem hle
      -- the head of the longer list is the larger of two, so it is one of them
      have hmax : max t.high o = t.high ∨ max t.high o = o := by lia
      have hbound := hle _ List.mem_cons_self
      simp only [Option.map_some, Option.getD_some, List.mem_cons] at hmem hle hbound
      simp only [Option.toList_some, List.singleton_append, List.mem_cons]
      refine ⟨?_, ?_⟩
      · rcases hmem with hmem | hmem
        · rcases hmax with h | h
          · exact Or.inl (hmem.trans h)
          · exact Or.inr (Or.inl (hmem.trans h))
        · exact Or.inr (Or.inr hmem)
      · rintro b (rfl | rfl | hb)
        · lia
        · lia
        · exact hle b (Or.inr hb)

/-- The largest offset that fits a 64-bit integer. -/
def maxOffset : Offset := 9223372036854775807

theorem mem_of_mem_seen {t : Tracker α} {ops : List (Op α)} {o : Offset} (h : o ∈ seen t ops) :
    ∃ op ∈ ops, op.offset = o := by
  induction ops generalizing t with
  | nil => cases h
  | cons op ops ih =>
    rw [seen, List.mem_append] at h
    rcases h with h | h
    · refine ⟨op, List.mem_cons_self, ?_⟩
      rw [Option.mem_toList] at h
      cases op with
      | enter o' a => exact Option.some.inj h
      | complete o' => cases h
      | skip o' =>
        rw [sees?] at h
        split at h
        · exact Option.some.inj h
        · cases h
    · obtain ⟨op', hop', ho⟩ := ih h
      exact ⟨op', List.mem_cons_of_mem _ hop', ho⟩

/-- Offsets below the largest one never take a watermark beyond it. -/
theorem high_next_le {ops : List (Op α)} (h : ∀ op ∈ ops, op.offset < maxOffset) :
    (replay ops).high.next ≤ maxOffset := by
  obtain ⟨hmem, -⟩ := List.max?_eq_some_iff.1 (max?_seen ({} : Tracker α) ops)
  simp only [Offset.next, maxOffset] at *
  rcases List.mem_cons.1 hmem with hm | hm
  · have hm' : (replay ops).high = -1 := hm
    lia
  · obtain ⟨op, hop, ho⟩ := mem_of_mem_seen hm
    have := h op hop
    have ho' : op.offset = (replay ops).high := ho
    lia

/-- **Exact watermarks.**  After any history the low watermark is the smallest offset in flight, or
the one after the high watermark; the high watermark is the largest offset seen; completing a message
that is not in flight does nothing; completing one that is takes that one out, and an offset is marked
exactly when it was the smallest.  With offsets of 64 bits nothing overflows on the way. -/
theorem replay_exact (ops : List (Op α)) :
    ((replay ops).isIdle = false →
      (replay ops).inFlight.keys.min? = some (replay ops).low ∧
        ∀ o ∈ (replay ops).inFlight.keys, o ≤ (replay ops).high) ∧
    ((replay ops).isIdle = true → (replay ops).low = (replay ops).high.next) ∧
    (-1 :: seen {} ops).max? = some (replay ops).high ∧
    (∀ o, (replay ops).complete o = none ↔ o ∉ (replay ops).inFlight.keys) ∧
    (∀ o, o ∉ (replay ops).inFlight.keys → (replay ops).apply (.complete o) = replay ops) ∧
    (∀ o c t', (replay ops).complete o = some (c, t') → Completes (replay ops) o c t') ∧
    ((∀ op ∈ ops, op.offset < maxOffset) →
      (replay ops).low ≤ maxOffset ∧ (replay ops).high.next ≤ maxOffset) := by
  have h := exact_replay ops
  refine ⟨fun hi => ⟨h.min?_eq hi, h.le_high⟩, h.low_of_idle, max?_seen {} ops,
    fun _ => complete_eq_none_iff, fun o ho => ?_, fun o c t' hc => h.completes hc, fun hops => ?_⟩
  · rw [apply, complete_eq_none_iff.2 ho]
  · have hhigh := high_next_le hops
    exact ⟨Int.le_trans h.low_le_next hhigh, hhigh⟩

end ConsumerGroup.Tracker
