/-!
# Blank characters and trimming

A character is *blank* when the Unicode character database gives it the property *White_Space*.
Trimming removes the blank characters at both ends of a text.

Main statements: `trim_trim`, what is trimmed stays as it is, and `isBlankText_iff`, a text that has
nothing left is made of blanks.
-/

namespace ConsumerGroup.Text

/-- Whether the character has the property *White_Space*. -/
def isBlank (c : Char) : Bool :=
  let n := c.toNat
  (0x09 ≤ n && n ≤ 0x0D) || n == 0x20 || n == 0x85 || n == 0xA0 || n == 0x1680
    || (0x2000 ≤ n && n ≤ 0x200A) || n == 0x2028 || n == 0x2029 || n == 0x202F
    || n == 0x205F || n == 0x3000

/-! ## Trimming a list of characters -/

/-- The characters without the blanks they start with. -/
def trimStart (cs : List Char) : List Char := cs.dropWhile isBlank

/-- The characters without the blanks they end with. -/
def trimEnd (cs : List Char) : List Char := (trimStart cs.reverse).reverse

/-- Every blank of the class that core knows is blank here. -/
theorem isBlank_of_isWhitespace {c : Char} (h : c.isWhitespace = true) : isBlank c = true := by
  simp only [Char.isWhitespace, Bool.or_eq_true, decide_eq_true_eq] at h
  rcases h with ((h | h) | h) | h <;> subst h <;> decide

theorem trimStart_cons (c : Char) (cs : List Char) :
    trimStart (c :: cs) = if isBlank c then trimStart cs else c :: cs := by
  simp only [trimStart, List.dropWhile_cons]

/-- What is left after trimming the start is empty or starts with a character that is not blank. -/
theorem trimStart_eq (cs : List Char) :
    trimStart cs = [] ∨ ∃ c rest, trimStart cs = c :: rest ∧ isBlank c = false := by
  induction cs with
  | nil => exact .inl rfl
  | cons c cs ih =>
    rw [trimStart_cons]
    cases h : isBlank c
    · exact .inr ⟨c, cs, by simp, h⟩
    · simpa using ih

theorem trimStart_trimStart (cs : List Char) : trimStart (trimStart cs) = trimStart cs := by
  rcases trimStart_eq cs with h | ⟨c, rest, h, hc⟩
  · rw [h]; rfl
  · rw [h, trimStart_cons, hc]; rfl

theorem trimEnd_trimEnd (cs : List Char) : trimEnd (trimEnd cs) = trimEnd cs := by
  simp only [trimEnd, List.reverse_reverse, trimStart_trimStart]

/-- Trimming a list whose last character is not blank leaves it as it is. -/
theorem trimStart_append_of_not_blank (cs : List Char) {c : Char} (h : isBlank c = false) :
    ∃ front, trimStart (cs ++ [c]) = front ++ [c] := by
  induction cs with
  | nil => exact ⟨[], by simp [trimStart_cons, h]⟩
  | cons d cs ih =>
    rw [List.cons_append, trimStart_cons]
    split
    · exact ih
    · exact ⟨d :: cs, rfl⟩

/-- Trimming the end does not change the first character when that one is not blank. -/
theorem trimStart_trimEnd_cons {c : Char} (cs : List Char) (h : isBlank c = false) :
    trimStart (trimEnd (c :: cs)) = trimEnd (c :: cs) := by
  obtain ⟨front, hf⟩ := trimStart_append_of_not_blank cs.reverse h
  have he : trimEnd (c :: cs) = c :: front.reverse := by
    simp [trimEnd, hf]
  rw [he, trimStart_cons, h]
  rfl

/-- The characters between the blanks at both ends. -/
def trimChars (cs : List Char) : List Char := trimEnd (trimStart cs)

theorem trimChars_trimChars (cs : List Char) : trimChars (trimChars cs) = trimChars cs := by
  simp only [trimChars]
  rcases trimStart_eq cs with h | ⟨c, rest, h, hc⟩
  · rw [h]; rfl
  · rw [h, trimStart_trimEnd_cons rest hc, trimEnd_trimEnd]

/-! ## Trimming a text -/

/-- The text without the blanks at its ends. -/
def trim (s : String) : String := String.ofList (trimChars s.toList)

theorem trim_trim (s : String) : trim (trim s) = trim s := by
  simp [trim, trimChars_trimChars]

/-- Whether the text holds blanks only. -/
def isBlankText (s : String) : Bool := trim s == ""

theorem trimStart_eq_nil_iff (cs : List Char) :
    trimStart cs = [] ↔ ∀ c ∈ cs, isBlank c = true := by
  induction cs with
  | nil => simp [trimStart]
  | cons c cs ih =>
    rw [trimStart_cons, List.forall_mem_cons]
    cases h : isBlank c
    · simp
    · simpa using ih

theorem trimChars_eq_nil_iff (cs : List Char) :
    trimChars cs = [] ↔ ∀ c ∈ cs, isBlank c = true := by
  rw [trimChars, trimEnd, List.reverse_eq_nil_iff, ← trimStart_eq_nil_iff]
  rcases trimStart_eq cs with h | ⟨c, rest, h, hc⟩
  · rw [h]
    rfl
  · -- the first character that is left is not blank, so neither end is trimmed away
    rw [h, trimStart_eq_nil_iff]
    have hne : ¬ ∀ d ∈ (c :: rest).reverse, isBlank d = true := fun hall => by
      have := hall c (List.mem_reverse.2 List.mem_cons_self)
      rw [hc] at this
      cases this
    exact iff_of_false hne (List.cons_ne_nil c rest)

/-- Nothing is left of a text when each of its characters is blank. -/
theorem isBlankText_iff (s : String) :
    isBlankText s = true ↔ ∀ c ∈ s.toList, isBlank c = true := by
  rw [← trimChars_eq_nil_iff, isBlankText, beq_iff_eq, trim, String.ofList_eq_empty_iff]

end ConsumerGroup.Text
