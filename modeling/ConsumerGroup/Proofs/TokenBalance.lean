import ConsumerGroup.TokenPool
import Mathlib.Data.List.Basic

/-!
# Where the tokens are

No operation of a pool creates a token or loses one: each is free, or held, or has been got by a
request, or is on its way from one of these places to another.

* `Balanced` — the tokens in these places are as many as there are, with `k` of them on their way.
* `IsQuiet`, `Asks` — nobody asks for tokens; or exactly one user does, for so many.  These are the
  pools a claim loop sees, which is the only one to ask its pool.
-/

namespace ConsumerGroup.TokenPool

variable {ι : Type}

/-! ## The balance -/

/-- How many tokens some requests have got. -/
def gotBy : List (Waiter ι) → Nat
  | [] => 0
  | w :: ws => w.got + gotBy ws

@[simp] theorem gotBy_nil : gotBy ([] : List (Waiter ι)) = 0 := rfl

@[simp] theorem gotBy_cons (w : Waiter ι) (ws : List (Waiter ι)) :
    gotBy (w :: ws) = w.got + gotBy ws := rfl

theorem gotBy_append (ws ws' : List (Waiter ι)) : gotBy (ws ++ ws') = gotBy ws + gotBy ws' := by
  induction ws with
  | nil => simp
  | cons w ws ih =>
    rw [List.cons_append, gotBy_cons, gotBy_cons, ih]
    omega

/-- All tokens are accounted for, with `k` of them on their way. -/
def Balanced (p : TokenPool ι) (k : Nat) : Prop :=
  p.free + p.held.length + gotBy p.waiting + gotBy p.served + k = p.capacity

/-- Handing tokens out to requests loses none. -/
theorem distribute_balanced (n : Nat) (ws : List (Waiter ι)) :
    (distribute n ws).1 + gotBy (distribute n ws).2.1 + gotBy (distribute n ws).2.2 =
      n + gotBy ws := by
  induction ws generalizing n with
  | nil => rfl
  | cons w ws ih =>
    by_cases hm : w.missing ≤ n
    · have h := ih (n - w.missing)
      rcases hd : distribute (n - w.missing) ws with ⟨left, served, waiting⟩
      rw [hd] at h
      simp only [distribute, if_pos hm, hd, gotBy_cons] at h ⊢
      omega
    · simp only [distribute, if_neg hm, gotBy_cons, gotBy_nil]
      omega

theorem Balanced.give {p : TokenPool ι} {n k : Nat} (h : p.Balanced (n + k)) :
    (p.give n).Balanced k := by
  have hd := distribute_balanced n p.waiting
  rcases hr : distribute n p.waiting with ⟨left, served, waiting⟩
  rw [hr] at hd
  simp only [Balanced, TokenPool.give, hr, gotBy_append] at hd h ⊢
  omega

theorem Balanced.close {p : TokenPool ι} {k : Nat} (h : p.Balanced k) : p.close.Balanced k := h

theorem Balanced.finishDrain {p : TokenPool ι} {k : Nat} (h : p.Balanced (p.drainSize + k)) :
    p.finishDrain.Balanced k :=
  h.give.close

theorem Balanced.hold {p : TokenPool ι} {k : Nat} (h : p.Balanced (k + 1)) (holder : ι) :
    (p.hold holder).Balanced k := by
  simp only [Balanced, TokenPool.hold, List.length_append, List.length_singleton] at h ⊢
  omega

theorem Balanced.held_length_le {p : TokenPool ι} {k : Nat} (h : p.Balanced k) :
    p.held.length ≤ p.capacity := by
  rw [Balanced] at h
  omega

theorem balanced_ofCapacity (n : Nat) : (ofCapacity n : TokenPool ι).Balanced 0 := by
  simp [Balanced, ofCapacity]

/-! ## What the operations leave alone -/

@[simp] theorem held_request (p : TokenPool ι) (id : ι) (n : Nat) :
    (p.request id n).2.held = p.held := by
  rw [request]
  split
  · rfl
  · split <;> rfl

@[simp] theorem capacity_request (p : TokenPool ι) (id : ι) (n : Nat) :
    (p.request id n).2.capacity = p.capacity := by
  rw [request]
  split
  · rfl
  · split <;> rfl

/-! ## Taking a free token -/

/-- A token is taken when the pool is open and one is free. -/
theorem tryAcquire?_eq_some {p p' : TokenPool ι} {holder : ι}
    (h : p.tryAcquire? holder = some p') :
    p.closed = false ∧ 0 < p.free ∧ p' = { p with free := p.free - 1, held := p.held ++ [holder] } := by
  rw [tryAcquire?] at h
  split at h
  · cases h
  · rename_i hn
    simp only [Bool.or_eq_true, decide_eq_true_eq, not_or, Bool.not_eq_true] at hn
    exact ⟨hn.1, by omega, (Option.some.inj h).symm⟩

theorem free_of_tryAcquire?_eq_none {p : TokenPool ι} {holder : ι}
    (h : p.tryAcquire? holder = none) (hc : p.closed = false) : p.free = 0 := by
  simpa [tryAcquire?, hc] using h

theorem Balanced.tryAcquire? {p p' : TokenPool ι} {k : Nat} {holder : ι} (hb : p.Balanced k)
    (h : p.tryAcquire? holder = some p') : p'.Balanced k := by
  obtain ⟨-, hfree, rfl⟩ := tryAcquire?_eq_some h
  simp only [Balanced, List.length_append, List.length_singleton] at hb ⊢
  omega

/-! ## Putting one back -/

variable [DecidableEq ι]

@[simp] theorem capacity_release (p : TokenPool ι) (holder : ι) :
    (p.release holder).capacity = p.capacity := by
  rw [release]
  split <;> rfl

@[simp] theorem closed_release (p : TokenPool ι) (holder : ι) :
    (p.release holder).closed = p.closed := by
  rw [release]
  split <;> rfl

@[simp] theorem drainSize_release (p : TokenPool ι) (holder : ι) :
    (p.release holder).drainSize = p.drainSize := by
  simp only [drainSize]
  rw [capacity_release]

theorem held_release (p : TokenPool ι) (holder : ι) :
    (p.release holder).held = p.held.erase holder := by
  rw [release]
  split
  · rfl
  · rename_i hn
    exact (List.erase_of_not_mem hn).symm

theorem Balanced.release {p : TokenPool ι} {k : Nat} (h : p.Balanced k) (holder : ι) :
    (p.release holder).Balanced k := by
  rw [TokenPool.release]
  split
  · rename_i hm
    apply Balanced.give
    have hlen := List.length_erase_of_mem hm
    have hpos := List.length_pos_of_mem hm
    simp only [Balanced] at h ⊢
    omega
  · exact h

/-! ## One user asks -/

/-- Nobody asks for tokens. -/
structure IsQuiet (p : TokenPool ι) : Prop where
  /-- nobody waits -/
  waiting : p.waiting = []
  /-- nobody has yet to learn of tokens -/
  served : p.served = []

/-- One user asks for `n` tokens, and nobody else asks. -/
inductive Asks (p : TokenPool ι) (id : ι) (n : Nat) : Prop where
  /-- some are missing, and none is free -/
  | waiting (missing got : Nat) : 0 < missing → missing + got = n → p.free = 0 →
      p.waiting = [⟨id, missing, got⟩] → p.served = [] → Asks p id n
  /-- it has them all -/
  | served : p.waiting = [] → p.served = [⟨id, 0, n⟩] → Asks p id n

omit [DecidableEq ι] in
theorem isQuiet_ofCapacity (n : Nat) : (ofCapacity n : TokenPool ι).IsQuiet := ⟨rfl, rfl⟩

omit [DecidableEq ι] in
theorem IsQuiet.give {p : TokenPool ι} (h : p.IsQuiet) (n : Nat) : (p.give n).IsQuiet := by
  constructor <;> simp [TokenPool.give, distribute, h.waiting, h.served]

omit [DecidableEq ι] in
theorem IsQuiet.finishDrain {p : TokenPool ι} (h : p.IsQuiet) : p.finishDrain.IsQuiet :=
  ⟨(h.give _).waiting, (h.give _).served⟩

omit [DecidableEq ι] in
/-- Tokens that come back go to the user who asks, as far as they are missing. -/
theorem Asks.give {p : TokenPool ι} {id : ι} {n : Nat} (h : p.Asks id n) (k : Nat) :
    (p.give k).Asks id n := by
  cases h with
  | waiting missing got hpos hsum hf hw hs =>
    by_cases hk : missing ≤ k
    · have hn : got + missing = n := by omega
      refine .served ?_ ?_ <;> simp [TokenPool.give, distribute, hw, hs, hk, hn]
    · refine .waiting (missing - k) (got + k) (by omega) (by omega) ?_ ?_ ?_ <;>
        simp [TokenPool.give, distribute, hf, hw, hs, hk]
  | served hw hs => refine .served ?_ ?_ <;> simp [TokenPool.give, distribute, hw, hs]

theorem IsQuiet.release {p : TokenPool ι} (h : p.IsQuiet) (holder : ι) :
    (p.release holder).IsQuiet := by
  rw [TokenPool.release]
  split
  · have hq : ({ p with held := p.held.erase holder } : TokenPool ι).IsQuiet :=
      ⟨h.waiting, h.served⟩
    exact hq.give 1
  · exact h

theorem Asks.release {p : TokenPool ι} {id : ι} {n : Nat} (h : p.Asks id n) (holder : ι) :
    (p.release holder).Asks id n := by
  rw [TokenPool.release]
  split
  · refine Asks.give ?_ 1
    cases h with
    | waiting missing got hpos hsum hf hw hs => exact .waiting missing got hpos hsum hf hw hs
    | served hw hs => exact .served hw hs
  · exact h

omit [DecidableEq ι] in
/-- A request to a quiet pool is met at once or leaves one user who asks. -/
theorem IsQuiet.request {p p' : TokenPool ι} {id : ι} {n k : Nat} {a : Answer} (h : p.IsQuiet)
    (hc : p.closed = false) (hb : p.Balanced k) (hr : p.request id n = (a, p')) :
    p'.closed = false ∧
      (a = .served ∧ n ≤ p.free ∧ p'.IsQuiet ∧ p'.Balanced (n + k) ∨
        a = .waiting ∧ p.free < n ∧ p'.Asks id n ∧ p'.Balanced k) := by
  simp only [TokenPool.request, hc, Bool.false_eq_true, if_false] at hr
  by_cases hn : n ≤ p.free
  · rw [if_pos hn] at hr
    obtain ⟨rfl, rfl⟩ := Prod.mk.inj hr
    refine ⟨rfl, Or.inl ⟨rfl, hn, ⟨h.waiting, h.served⟩, ?_⟩⟩
    simp only [Balanced] at hb ⊢
    omega
  · rw [if_neg hn] at hr
    obtain ⟨rfl, rfl⟩ := Prod.mk.inj hr
    refine ⟨rfl, Or.inr ⟨rfl, by omega, ?_, ?_⟩⟩
    · exact .waiting (n - p.free) p.free (by omega) (by omega) rfl (by simp [h.waiting]) h.served
    · simp only [Balanced, h.waiting, List.nil_append, gotBy_cons, gotBy_nil] at hb ⊢
      omega

/-- In an open pool the user who asks learns of its tokens, or goes on waiting. -/
theorem Asks.resume {p p' : TokenPool ι} {id : ι} {n k : Nat} {a : Answer} (h : p.Asks id n)
    (hc : p.closed = false) (hb : p.Balanced k) (hr : p.resume id = (a, p')) :
    a = .served ∧ p'.closed = false ∧ p'.held = p.held ∧ p'.capacity = p.capacity ∧
        p'.IsQuiet ∧ p'.Balanced (n + k) ∨
      a = .waiting ∧ p' = p := by
  simp only [TokenPool.resume, hc, Bool.false_eq_true, if_false] at hr
  cases h with
  | waiting missing got hpos hsum hf hw hs =>
    simp only [hs, List.any_nil, Bool.false_eq_true, if_false] at hr
    obtain ⟨rfl, rfl⟩ := Prod.mk.inj hr
    exact Or.inr ⟨rfl, rfl⟩
  | served hw hs =>
    simp only [hs, List.any_cons, decide_true, List.any_nil, Bool.or_false, if_true, ne_eq,
      not_true_eq_false, decide_false, Bool.false_eq_true, not_false_eq_true,
      List.filter_cons_of_neg, List.filter_nil] at hr
    obtain ⟨rfl, rfl⟩ := Prod.mk.inj hr
    refine Or.inl ⟨rfl, rfl, rfl, rfl, ⟨hw, rfl⟩, ?_⟩
    simp only [Balanced, hs, gotBy_cons, gotBy_nil] at hb ⊢
    omega

theorem IsQuiet.cancel {p : TokenPool ι} (h : p.IsQuiet) (id : ι) : p.cancel id = p := by
  simp [TokenPool.cancel, waiter?, h.waiting, h.served]

@[simp] theorem held_cancel (p : TokenPool ι) (id : ι) : (p.cancel id).held = p.held := by
  rw [TokenPool.cancel]
  split <;> rfl

@[simp] theorem capacity_cancel (p : TokenPool ι) (id : ι) :
    (p.cancel id).capacity = p.capacity := by
  rw [TokenPool.cancel]
  split <;> rfl

@[simp] theorem closed_cancel (p : TokenPool ι) (id : ι) : (p.cancel id).closed = p.closed := by
  rw [TokenPool.cancel]
  split <;> rfl

/-- A user who withdraws its request gives back what it has got. -/
theorem Asks.cancel {p : TokenPool ι} {id : ι} {n k : Nat} (h : p.Asks id n)
    (hb : p.Balanced k) : (p.cancel id).IsQuiet ∧ (p.cancel id).Balanced k := by
  cases h with
  | waiting missing got hpos hsum hf hw hs =>
    have hwaiter : p.waiter? id = some ⟨id, missing, got⟩ := by simp [waiter?, hw, hs]
    simp only [TokenPool.cancel, hwaiter, hw, hs]
    refine ⟨IsQuiet.give ⟨by simp, by simp⟩ _, Balanced.give ?_⟩
    simp only [Balanced, hw, hs, gotBy_cons, gotBy_nil] at hb ⊢
    simp
    omega
  | served hw hs =>
    have hwaiter : p.waiter? id = some ⟨id, 0, n⟩ := by simp [waiter?, hs]
    simp only [TokenPool.cancel, hwaiter, hw, hs]
    refine ⟨IsQuiet.give ⟨by simp, by simp⟩ _, Balanced.give ?_⟩
    simp only [Balanced, hw, hs, gotBy_cons, gotBy_nil] at hb ⊢
    simp
    omega

end ConsumerGroup.TokenPool
