import ConsumerGroup.Proofs.Redelivery.Counts
import Mathlib.Data.List.TakeWhile

/-!
# Which texts stand for a count of redeliveries

The count of redeliveries is a text in a header, and anybody may have written it.  It is read when it
is a decimal numeral between blanks, of a value that is in range; every other text counts as zero.

* `Text.Numeral` — the grammar, without a word on how it is read.
* `Text.readNumeral?_trim_eq_some_iff` — a text is read exactly when it is a numeral in range, however
  many digits it has.
* `Text.numeral_repr` — a number that is written down may get blanks around it and zeros in front.

Main statement: `retry_count_read_exactly`.
-/

namespace ConsumerGroup

namespace Text

/-- `Numeral cs n`: between blanks there is an optional plus sign, and then one digit or more, which
stand for `n`. -/
inductive Numeral : List Char → Nat → Prop where
  | between {before sign digits after : List Char} : (∀ c ∈ before, isBlank c = true) →
      sign = [] ∨ sign = ['+'] → digits ≠ [] → (∀ c ∈ digits, c.isDigit = true) →
      (∀ c ∈ after, isBlank c = true) →
      Numeral (before ++ (sign ++ digits) ++ after) (Nat.ofDigitChars 10 digits 0)

/-! ## Digits -/

theorem digitValue?_eq_some_iff {c : Char} {d : Nat} :
    digitValue? c = some d ↔ c.isDigit = true ∧ d = c.toNat - '0'.toNat := by
  constructor
  · intro h
    rw [digitValue?] at h
    split at h
    · rename_i hdigit
      rw [Bool.and_eq_true, decide_eq_true_eq, decide_eq_true_eq] at hdigit
      refine ⟨?_, (Option.some.inj h).symm⟩
      simp only [Char.isDigit, Bool.and_eq_true, decide_eq_true_eq]
      exact hdigit
    · cases h
  · rintro ⟨hdigit, rfl⟩
    exact digitValue?_of_isDigit hdigit

/-- Only digits are read, and for what they stand for. -/
theorem eq_of_readDigits? {limit value n : Nat} {cs : List Char}
    (h : readDigits? limit value cs = some n) :
    (∀ c ∈ cs, c.isDigit = true) ∧ n = Nat.ofDigitChars 10 cs value := by
  induction cs generalizing value with
  | nil => exact ⟨nofun, (Option.some.inj h).symm⟩
  | cons c cs ih =>
    rw [readDigits?] at h
    split at h
    · cases h
    · rename_i d hd
      split at h
      · obtain ⟨hdigit, rfl⟩ := digitValue?_eq_some_iff.1 hd
        obtain ⟨hdigits, rfl⟩ := ih h
        refine ⟨List.forall_mem_cons.2 ⟨hdigit, hdigits⟩, ?_⟩
        rw [Nat.ofDigitChars_cons, Nat.mul_comm]
      · cases h

/-- One digit or more are read exactly when the limit is not exceeded, whatever zeros they begin
with. -/
theorem readUnsigned?_eq_some_iff {limit n : Nat} {cs : List Char} :
    readUnsigned? limit cs = some n ↔
      cs ≠ [] ∧ (∀ c ∈ cs, c.isDigit = true) ∧ n = Nat.ofDigitChars 10 cs 0 ∧ n ≤ limit := by
  cases cs with
  | nil => exact iff_of_false nofun fun h => h.1 rfl
  | cons c cs =>
    constructor
    · intro h
      obtain ⟨hdigits, hn⟩ := eq_of_readDigits? h
      exact ⟨List.cons_ne_nil c cs, hdigits, hn, le_of_readDigits? (Nat.zero_le limit) h⟩
    · rintro ⟨-, hdigits, rfl, hle⟩
      exact readDigits?_of_isDigit hdigits hle

/-- A sign may stand before the digits, and no other character. -/
theorem readNumeral?_eq_some_iff {limit n : Nat} {s : String} :
    readNumeral? limit s = some n ↔
      ∃ sign digits, s.toList = sign ++ digits ∧ (sign = [] ∨ sign = ['+']) ∧ digits ≠ [] ∧
        (∀ c ∈ digits, c.isDigit = true) ∧ n = Nat.ofDigitChars 10 digits 0 ∧ n ≤ limit := by
  rw [readNumeral?]
  constructor
  · intro h
    split at h
    · rename_i digits hs
      exact ⟨['+'], digits, hs, Or.inr rfl, readUnsigned?_eq_some_iff.1 h⟩
    · exact ⟨[], s.toList, rfl, Or.inl rfl, readUnsigned?_eq_some_iff.1 h⟩
  · rintro ⟨sign, digits, hs, rfl | rfl, hne, hdigits, hn, hle⟩
    · rw [hs, List.nil_append]
      split
      · -- a digit is not a sign
        exact absurd (hdigits '+' List.mem_cons_self) (by decide)
      · exact readUnsigned?_eq_some_iff.2 ⟨hne, hdigits, hn, hle⟩
    · rw [hs]
      exact readUnsigned?_eq_some_iff.2 ⟨hne, hdigits, hn, hle⟩

/-! ## Blanks -/

theorem exists_trimStart (cs : List Char) :
    ∃ before, (∀ c ∈ before, isBlank c = true) ∧ cs = before ++ trimStart cs :=
  ⟨cs.takeWhile isBlank, fun _ hc => List.mem_takeWhile_imp hc, List.takeWhile_append_dropWhile.symm⟩

/-- What is trimmed away is blank. -/
theorem exists_trimChars (cs : List Char) :
    ∃ before after, (∀ c ∈ before, isBlank c = true) ∧ (∀ c ∈ after, isBlank c = true) ∧
      cs = before ++ trimChars cs ++ after := by
  obtain ⟨before, hbefore, hcs⟩ := exists_trimStart cs
  obtain ⟨after, hafter, hrest⟩ := exists_trimStart (trimStart cs).reverse
  refine ⟨before, after.reverse, hbefore, fun c hc => hafter c (List.mem_reverse.1 hc), ?_⟩
  have hend : trimStart cs = trimChars cs ++ after.reverse := by
    rw [trimChars, trimEnd, ← List.reverse_append, ← hrest, List.reverse_reverse]
  rw [List.append_assoc, ← hend]
  exact hcs

theorem trimStart_append {before cs : List Char} (hbefore : ∀ c ∈ before, isBlank c = true) :
    trimStart (before ++ cs) = trimStart cs :=
  List.dropWhile_append_of_pos hbefore

/-- Trimming stops at a character that is not blank. -/
theorem trimStart_of_head {cs rest : List Char} (hne : cs ≠ []) (hcs : ∀ c ∈ cs, isBlank c = false) :
    trimStart (cs ++ rest) = cs ++ rest := by
  cases cs with
  | nil => exact absurd rfl hne
  | cons c cs =>
    rw [List.cons_append, trimStart_cons, hcs c List.mem_cons_self]
    rfl

/-- Blanks around a text without blanks are trimmed away, and nothing else. -/
theorem trimChars_between {before cs after : List Char} (hbefore : ∀ c ∈ before, isBlank c = true)
    (hne : cs ≠ []) (hcs : ∀ c ∈ cs, isBlank c = false) (hafter : ∀ c ∈ after, isBlank c = true) :
    trimChars (before ++ cs ++ after) = cs := by
  have hreverse : ∀ c ∈ cs.reverse, isBlank c = false := fun c hc => hcs c (List.mem_reverse.1 hc)
  rw [trimChars, List.append_assoc, trimStart_append hbefore, trimStart_of_head hne hcs, trimEnd,
    List.reverse_append, trimStart_append fun c hc => hafter c (List.mem_reverse.1 hc),
    trimStart_of_not_blank hreverse, List.reverse_reverse]

/-! ## Numerals -/

/-- **Numerals.**  A text is read exactly when it is a numeral in range. -/
theorem readNumeral?_trim_eq_some_iff {limit n : Nat} {s : String} :
    readNumeral? limit (trim s) = some n ↔ Numeral s.toList n ∧ n ≤ limit := by
  rw [readNumeral?_eq_some_iff, trim, String.toList_ofList]
  constructor
  · rintro ⟨sign, digits, htrim, hsign, hne, hdigits, rfl, hle⟩
    obtain ⟨before, after, hbefore, hafter, hs⟩ := exists_trimChars s.toList
    rw [hs, htrim]
    exact ⟨.between hbefore hsign hne hdigits hafter, hle⟩
  · rintro ⟨hnumeral, hle⟩
    generalize s.toList = cs at hnumeral
    obtain ⟨hbefore, hsign, hne, hdigits, hafter⟩ := hnumeral
    rename_i before sign digits after
    refine ⟨sign, digits, trimChars_between hbefore ?_ ?_ hafter, hsign, hne, hdigits, rfl, hle⟩
    · exact List.append_ne_nil_of_right_ne_nil sign hne
    · intro c hc
      rcases List.mem_append.1 hc with hc | hc
      · rcases hsign with rfl | rfl
        · cases hc
        · rw [List.mem_singleton.1 hc]
          decide
      · exact isBlank_of_isDigit (hdigits c hc)

theorem ofDigitChars_zeros (k : Nat) (digits : List Char) :
    Nat.ofDigitChars 10 (List.replicate k '0' ++ digits) 0 = Nat.ofDigitChars 10 digits 0 := by
  induction k with
  | zero => rfl
  | succ k ih =>
    rw [List.replicate_succ, List.cons_append, Nat.ofDigitChars_cons]
    exact ih

/-- A number that is written down stays a numeral with blanks around it and zeros in front. -/
theorem numeral_repr {before after : List Char} (hbefore : ∀ c ∈ before, isBlank c = true)
    (hafter : ∀ c ∈ after, isBlank c = true) (zeros n : Nat) :
    Numeral (before ++ (List.replicate zeros '0' ++ (Nat.repr n).toList) ++ after) n := by
  have hdigits : ∀ c ∈ List.replicate zeros '0' ++ Nat.toDigits 10 n, c.isDigit = true := by
    intro c hc
    rcases List.mem_append.1 hc with hc | hc
    · rw [List.eq_of_mem_replicate hc]
      decide
    · exact Nat.isDigit_of_mem_toDigits (by decide) (by decide) hc
  have hne : List.replicate zeros '0' ++ Nat.toDigits 10 n ≠ [] :=
    List.append_ne_nil_of_right_ne_nil _ Nat.toDigits_ne_nil
  have hnumeral := Numeral.between hbefore (Or.inl rfl) hne hdigits hafter
  rw [ofDigitChars_zeros, Nat.ofDigitChars_ten_toDigits] at hnumeral
  rw [Nat.toList_repr]
  exact hnumeral

end Text

/-! ## Counts -/

/-- A value counts as the number whose numeral it is, if that is in range, and else as zero. -/
theorem readRetryTimes_eq_iff {v : String} {n : Nat} :
    readRetryTimes (some v) = n ↔ Text.Numeral v.toList n ∧ n ≤ maxRetryTimes ∨
      n = 0 ∧ ∀ k, Text.Numeral v.toList k → maxRetryTimes < k := by
  rw [readRetryTimes, Option.bind_some]
  rcases hread : Text.readNumeral? maxRetryTimes (Text.trim v) with _ | k
  · have hnone : ∀ k, Text.Numeral v.toList k → maxRetryTimes < k := by
      intro k hk
      apply Nat.lt_of_not_le
      intro hle
      rw [Text.readNumeral?_trim_eq_some_iff.2 ⟨hk, hle⟩] at hread
      cases hread
    rw [Option.getD_none]
    constructor
    · rintro rfl
      exact Or.inr ⟨rfl, hnone⟩
    · rintro (⟨hn, hle⟩ | ⟨rfl, -⟩)
      · exact absurd hle (Nat.not_le_of_lt (hnone n hn))
      · rfl
  · obtain ⟨hk, hle⟩ := Text.readNumeral?_trim_eq_some_iff.1 hread
    rw [Option.getD_some]
    constructor
    · rintro rfl
      exact Or.inl ⟨hk, hle⟩
    · rintro (hn | ⟨-, hlarge⟩)
      · -- a text is read as one number
        rw [Text.readNumeral?_trim_eq_some_iff.2 hn] at hread
        exact (Option.some.inj hread).symm
      · exact absurd hle (Nat.not_le_of_lt (hlarge k hk))

namespace Envelope

/-- **Counts are read exactly as they are written.**  Of a message with any headers:

* what its first count stands for is `n` exactly when that text is a numeral for `n` between blanks,
  with a plus sign or without one, and `n` is at most 4294967295; it is zero when the text is no such
  numeral, and when there is no count;
* a redelivery of a message with a smaller count than 4294967295, which has no next one, writes the count
  that is one higher as a decimal numeral;
* and of every number in range the decimal numeral, with any blanks around it and any zeros in front,
  is read back as that number. -/
theorem retry_count_read_exactly (fresh : TraceId) (source : TopicPartition) (m : Message) :
    (∀ v, m.headers.get? Headers.retryKey = some v → ∀ n,
      (ofMessage fresh source m).retryTimes = n ↔ Text.Numeral v.toList n ∧ n ≤ 4294967295 ∨
        n = 0 ∧ ∀ k, Text.Numeral v.toList k → 4294967295 < k) ∧
    (m.headers.get? Headers.retryKey = none → (ofMessage fresh source m).retryTimes = 0) ∧
    (∀ e : Envelope, e.retryTimes < 4294967295 →
      e.redeliveryHeaders.get? Headers.retryKey = some (Nat.repr (e.retryTimes + 1))) ∧
    ∀ n ≤ 4294967295, ∀ (before after : List Char) (zeros : Nat),
      (∀ c ∈ before, Text.isBlank c = true) → (∀ c ∈ after, Text.isBlank c = true) →
      m.headers.get? Headers.retryKey = some (String.ofList
        (before ++ (List.replicate zeros '0' ++ (Nat.repr n).toList) ++ after)) →
      (ofMessage fresh source m).retryTimes = n := by
  refine ⟨?_, ?_, ?_, ?_⟩
  · intro v hv n
    have hread := readRetryTimes_eq_iff (v := v) (n := n)
    simp only [ofMessage, hv]
    rw [maxRetryTimes] at hread
    exact hread
  · intro hnone
    rw [ofMessage, hnone]
    rfl
  · intro e hlt
    rw [get?_retryKey_redeliveryHeaders, nextRetryTimes_of_lt hlt]
  · intro n hle before after zeros hbefore hafter hv
    simp only [ofMessage, hv]
    apply readRetryTimes_eq_iff.2
    rw [String.toList_ofList]
    exact Or.inl ⟨Text.numeral_repr hbefore hafter zeros n, hle⟩

/-- The largest count is read between a tab and an ideographic space, behind two zeros; a second count
behind it is not looked at.  It is what a redelivery writes of a message with the count before it. -/
theorem retry_count_read_exactly_padded :
    let m : Message := ⟨0, .empty, ⟨[("retryTimes", "\t004294967295\u3000"), ("retryTimes", "1")]⟩, none⟩
    let before : Message := ⟨0, .empty, ⟨[("retryTimes", "+4294967294")]⟩, none⟩
    (m.headers.get? Headers.retryKey = some (String.ofList
        (['\t'] ++ (List.replicate 2 '0' ++ (Nat.repr 4294967295).toList) ++ ['\u3000'])) ∧
      (ofMessage default ⟨"orders", 0⟩ m).retryTimes = 4294967295) ∧
    (ofMessage default ⟨"orders", 0⟩ before).retryTimes < 4294967295 ∧
      (ofMessage default ⟨"orders", 0⟩ before).redeliveryHeaders.get? Headers.retryKey =
        some "4294967295" := by
  intro m before
  have hvalue : m.headers.get? Headers.retryKey = some (String.ofList
      (['\t'] ++ (List.replicate 2 '0' ++ (Nat.repr 4294967295).toList) ++ ['\u3000'])) := by
    decide +kernel
  have hbefore : (ofMessage default ⟨"orders", 0⟩ before).retryTimes = 4294967294 := by decide +kernel
  have hlt : (ofMessage default ⟨"orders", 0⟩ before).retryTimes < 4294967295 := by
    rw [hbefore]
    decide
  obtain ⟨-, -, hwrites, hread⟩ := retry_count_read_exactly default ⟨"orders", 0⟩ m
  refine ⟨⟨hvalue, hread _ (Nat.le_refl _) ['\t'] ['\u3000'] 2 (by simp [Text.isBlank])
    (by simp [Text.isBlank]) hvalue⟩, hlt, ?_⟩
  rw [hwrites _ hlt, hbefore]
  decide +kernel

end Envelope

end ConsumerGroup
