import ConsumerGroup.Envelope
import Mathlib.Data.List.Basic

/-!
# Counts that are written are read back

The count of redeliveries travels as a text in a header.  Whatever stands there, what is read is in
range (`readRetryTimes_le`), and a count in range that was written as a decimal numeral is read back
(`readRetryTimes_repr`).
-/

namespace ConsumerGroup

namespace Text

/-! ## Digits -/

theorem digitValue?_of_isDigit {c : Char} (h : c.isDigit = true) :
    digitValue? c = some (c.toNat - '0'.toNat) := by
  simp only [Char.isDigit, Bool.and_eq_true, decide_eq_true_eq] at h
  have hdigit : ('0' ≤ c && c ≤ '9') = true := by
    rw [Bool.and_eq_true, decide_eq_true_eq, decide_eq_true_eq]
    exact h
  rw [digitValue?, if_pos hdigit]

/-- No digit is blank. -/
theorem isBlank_of_isDigit {c : Char} (h : c.isDigit = true) : isBlank c = false := by
  simp only [Char.isDigit, Bool.and_eq_true, decide_eq_true_eq, ge_iff_le, UInt32.le_iff_toNat_le] at h
  have hle : 48 ≤ c.toNat ∧ c.toNat ≤ 57 := h
  simp only [isBlank, Bool.or_eq_false_iff, Bool.and_eq_false_iff, decide_eq_false_iff_not,
    beq_eq_false_iff_ne, ne_eq]
  omega

/-- Further digits only add to what was read before them. -/
theorem le_ofDigitChars (cs : List Char) (value : Nat) : value ≤ Nat.ofDigitChars 10 cs value := by
  induction cs generalizing value with
  | nil => simp
  | cons c cs ih =>
    rw [Nat.ofDigitChars_cons]
    have hle := ih (10 * value + (c.toNat - '0'.toNat))
    omega

/-- Digits are read as the number they stand for, if that is within the limit. -/
theorem readDigits?_of_isDigit {limit value : Nat} {cs : List Char}
    (hdigits : ∀ c ∈ cs, c.isDigit = true) (hle : Nat.ofDigitChars 10 cs value ≤ limit) :
    readDigits? limit value cs = some (Nat.ofDigitChars 10 cs value) := by
  induction cs generalizing value with
  | nil => simp [readDigits?]
  | cons c cs ih =>
    rw [Nat.ofDigitChars_cons, Nat.mul_comm] at hle ⊢
    -- what has been read up to here is no more than the whole
    have hprefix := Nat.le_trans (le_ofDigitChars cs _) hle
    simp only [readDigits?, digitValue?_of_isDigit (hdigits c List.mem_cons_self), if_pos hprefix]
    exact ih (fun c hc => hdigits c (List.mem_cons_of_mem _ hc)) hle

/-- What is read is within the limit. -/
theorem le_of_readDigits? {limit value n : Nat} {cs : List Char} (hle : value ≤ limit)
    (h : readDigits? limit value cs = some n) : n ≤ limit := by
  induction cs generalizing value with
  | nil => exact Option.some.inj h ▸ hle
  | cons c cs ih =>
    rw [readDigits?] at h
    split at h
    · cases h
    · split at h
      · rename_i hle'
        exact ih hle' h
      · cases h

/-! ## Numerals -/

theorem le_of_readNumeral? {limit n : Nat} {s : String} (h : readNumeral? limit s = some n) :
    n ≤ limit := by
  have hunsigned : ∀ {cs}, readUnsigned? limit cs = some n → n ≤ limit := by
    intro cs hcs
    cases cs with
    | nil => cases hcs
    | cons c cs => exact le_of_readDigits? (Nat.zero_le _) hcs
  rw [readNumeral?] at h
  split at h <;> exact hunsigned h

/-- A decimal numeral is read back. -/
theorem readNumeral?_repr {limit n : Nat} (h : n ≤ limit) : readNumeral? limit (Nat.repr n) = some n := by
  have hdigits : ∀ c ∈ Nat.toDigits 10 n, c.isDigit = true :=
    fun c hc => Nat.isDigit_of_mem_toDigits (by decide) (by decide) hc
  have hvalue : Nat.ofDigitChars 10 (Nat.toDigits 10 n) 0 = n := Nat.ofDigitChars_ten_toDigits
  have hread : readUnsigned? limit (Nat.toDigits 10 n) = some n := by
    rw [readUnsigned?, readDigits?_of_isDigit hdigits (hvalue.symm ▸ h), hvalue]
    exact fun hnil => absurd hnil Nat.toDigits_ne_nil
  rw [readNumeral?, Nat.toList_repr]
  split
  · -- no digit is a sign
    rename_i cs hcs
    have hplus := hdigits '+' (by rw [hcs]; exact List.mem_cons_self)
    exact absurd hplus (by decide)
  · exact hread

/-! ## Blanks -/

theorem trimStart_of_not_blank {cs : List Char} (h : ∀ c ∈ cs, isBlank c = false) :
    trimStart cs = cs := by
  cases cs with
  | nil => rfl
  | cons c cs => rw [trimStart_cons, h c List.mem_cons_self, if_neg Bool.false_ne_true]

/-- A numeral has no blanks to trim. -/
theorem trim_repr (n : Nat) : trim (Nat.repr n) = Nat.repr n := by
  have hblank : ∀ c ∈ Nat.toDigits 10 n, isBlank c = false :=
    fun c hc => isBlank_of_isDigit (Nat.isDigit_of_mem_toDigits (by decide) (by decide) hc)
  have hreverse : ∀ c ∈ (Nat.toDigits 10 n).reverse, isBlank c = false :=
    fun c hc => hblank c (List.mem_reverse.1 hc)
  rw [trim, Nat.toList_repr, trimChars, trimStart_of_not_blank hblank, trimEnd,
    trimStart_of_not_blank hreverse, List.reverse_reverse, ← Nat.toList_repr, String.ofList_toList]

end Text

/-! ## Counts of redeliveries -/

/-- Whatever a header says, the count it stands for is in range. -/
theorem readRetryTimes_le (value : Option String) : readRetryTimes value ≤ maxRetryTimes := by
  rw [readRetryTimes]
  rcases h : value.bind fun v => Text.readNumeral? maxRetryTimes (Text.trim v) with _ | n
  · exact Nat.zero_le _
  · obtain ⟨v, -, hv⟩ := Option.bind_eq_some_iff.1 h
    exact Text.le_of_readNumeral? hv

/-- A count in range that is written is read back. -/
theorem readRetryTimes_repr {n : Nat} (h : n ≤ maxRetryTimes) :
    readRetryTimes (some (Nat.repr n)) = n := by
  rw [readRetryTimes, Option.bind_some, Text.trim_repr, Text.readNumeral?_repr h, Option.getD_some]

/-- A redelivery has the next count. -/
theorem Envelope.get?_retryKey_redeliveryHeaders (e : Envelope) :
    e.redeliveryHeaders.get? Headers.retryKey = some (Nat.repr (nextRetryTimes e.retryTimes)) := by
  rw [redeliveryHeaders, Headers.get?_set_of_ne _ (by decide), Headers.get?_set_self]

end ConsumerGroup
