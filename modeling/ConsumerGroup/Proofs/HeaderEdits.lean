import ConsumerGroup.Headers

/-!
# Edits of a header list

Names may repeat in a header list, and every operation looks for the first pair of a name.  This
module says what that comes to when headers are set and appended in any order.

* `Headers.replace_first` — setting a name that is present touches its first pair and no other.
* `Headers.set_set`, `Headers.set_comm` — of two settings of one name the later counts, and settings of
  two names commute as soon as one of them is present.
* `Headers.get?_editAll` — after any edits a name has the value it was set to last, or else the value
  of the first pair that ever had it.

Main statement: `header_laws`.
-/

namespace ConsumerGroup.Headers

/-! ## Names -/

/-- The names, first to last. -/
def names (h : Headers) : List String := h.toList.map Prod.fst

theorem first_eq_none_iff {key : String} {l : List (String × String)} :
    first key l = none ↔ key ∉ l.map Prod.fst := by
  induction l with
  | nil => simp [first]
  | cons e l ih =>
    by_cases h : e.1 = key
    · simp [first, h]
    · simp only [first, h, if_false, ih, List.map_cons, List.mem_cons, Ne.symm h, false_or]

/-- A name is found when it is present. -/
theorem get?_eq_none_iff {h : Headers} {key : String} : h.get? key = none ↔ key ∉ h.names :=
  first_eq_none_iff

/-! ## One setting -/

/-- A name that is present has a first pair. -/
theorem exists_first {key : String} {l : List (String × String)} (hkey : key ∈ l.map Prod.fst) :
    ∃ before old after, l = before ++ (key, old) :: after ∧ key ∉ before.map Prod.fst := by
  induction l with
  | nil => cases hkey
  | cons e l ih =>
    by_cases hk : e.1 = key
    · exact ⟨[], e.2, l, by rw [← hk, List.nil_append], List.not_mem_nil⟩
    · rw [List.map_cons, List.mem_cons] at hkey
      obtain ⟨before, old, after, rfl, hnot⟩ := ih (hkey.resolve_left (Ne.symm hk))
      refine ⟨e :: before, old, after, rfl, ?_⟩
      rw [List.map_cons, List.mem_cons, not_or]
      exact ⟨Ne.symm hk, hnot⟩

/-- Setting a name that is present touches its first pair and no other. -/
theorem replace_first {key : String} {before : List (String × String)}
    (hnot : key ∉ before.map Prod.fst) (value old : String) (after : List (String × String)) :
    replace key value (before ++ (key, old) :: after) = before ++ (key, value) :: after := by
  induction before with
  | nil => exact if_pos rfl
  | cons e before ih =>
    rw [List.map_cons, List.mem_cons, not_or] at hnot
    rw [List.cons_append, replace, if_neg (Ne.symm hnot.1), ih hnot.2]
    rfl

theorem set_of_mem {h : Headers} {key : String} (hkey : key ∈ h.names) (value : String) :
    ∃ before old after, h.toList = before ++ (key, old) :: after ∧ key ∉ before.map Prod.fst ∧
      (h.set key value).toList = before ++ (key, value) :: after := by
  obtain ⟨before, old, after, hl, hnot⟩ := exists_first hkey
  refine ⟨before, old, after, hl, hnot, ?_⟩
  rw [← replace_first hnot value old after, ← hl]
  rfl

/-- Setting a name that is missing appends a pair. -/
theorem replace_of_not_mem {key : String} {l : List (String × String)}
    (hkey : key ∉ l.map Prod.fst) (value : String) : replace key value l = l ++ [(key, value)] := by
  induction l with
  | nil => rfl
  | cons e l ih =>
    rw [List.map_cons, List.mem_cons, not_or] at hkey
    rw [replace, if_neg (Ne.symm hkey.1), ih hkey.2]
    rfl

/-- Appending a header tells only when nothing had its name. -/
theorem of_get?_push_ne {h : Headers} {key value other : String}
    (hchanged : (h.push key value).get? other ≠ h.get? other) :
    other = key ∧ key ∉ h.names ∧ (h.push key value).get? key = some value := by
  rw [get?_push] at hchanged
  by_cases hother : key = other
  · subst hother
    rcases hget : h.get? key with _ | old
    · refine ⟨rfl, get?_eq_none_iff.1 hget, ?_⟩
      rw [get?_push, hget, if_pos rfl]
      rfl
    · -- the first pair of that name is found as before
      rw [hget] at hchanged
      exact absurd rfl hchanged
  · rw [if_neg hother, Option.or_none] at hchanged
    exact absurd rfl hchanged

/-! ## Two settings -/

/-- Of two settings of one name the later counts. -/
theorem set_set (h : Headers) (key v w : String) : (h.set key v).set key w = h.set key w := by
  have hreplace : ∀ l : List (String × String),
      replace key w (replace key v l) = replace key w l := by
    intro l
    by_cases hkey : key ∈ l.map Prod.fst
    · obtain ⟨before, old, after, rfl, hnot⟩ := exists_first hkey
      simp only [replace_first hnot]
    · have hnot : key ∉ l.map Prod.fst := hkey
      rw [replace_of_not_mem hnot, replace_of_not_mem hnot, replace_first hnot]
  exact congrArg Headers.mk (hreplace h.toList)

theorem replace_comm {key other : String} (hne : key ≠ other) (v w : String)
    {l : List (String × String)} (hkey : key ∈ l.map Prod.fst) :
    replace other w (replace key v l) = replace key v (replace other w l) := by
  induction l with
  | nil => cases hkey
  | cons e l ih =>
    rw [List.map_cons, List.mem_cons] at hkey
    by_cases hk : e.1 = key
    · -- the pair that `key` replaces is here, and `other` goes past it
      simp [replace, hk, hne]
    · by_cases ho : e.1 = other
      · simp [replace, ho, Ne.symm hne]
      · simp [replace, hk, ho, ih (hkey.resolve_left (Ne.symm hk))]

/-- Settings of two names commute as soon as one of them is present: only of two that are missing the
first to be set comes first. -/
theorem set_comm {h : Headers} {key other : String} (hne : key ≠ other)
    (hmem : key ∈ h.names ∨ other ∈ h.names) (v w : String) :
    (h.set key v).set other w = (h.set other w).set key v := by
  rcases hmem with hkey | hother
  · exact congrArg Headers.mk (replace_comm hne v w hkey)
  · exact congrArg Headers.mk (replace_comm (Ne.symm hne) w v hother).symm

/-! ## Any edits -/

/-- A change of a header list. -/
inductive Edit where
  /-- a header is set -/
  | set (key value : String)
  /-- a header is appended -/
  | push (key value : String)
  deriving Repr, DecidableEq

/-- What a change comes to. -/
def edit (h : Headers) : Edit → Headers
  | .set key value => h.set key value
  | .push key value => h.push key value

/-- What several changes come to, one after the other. -/
def editAll (h : Headers) (edits : List Edit) : Headers := edits.foldl edit h

/-- The value to which a change sets a name. -/
def Edit.setting? (name : String) : Edit → Option String
  | set key value => if key = name then some value else none
  | push .. => none

/-- The pair that a change appends whether or not its name is present. -/
def Edit.pushed? : Edit → Option (String × String)
  | set .. => none
  | push key value => some (key, value)

/-- One change decides what is found under a name, or leaves that to what was there and what is
appended. -/
theorem first_edit (h : Headers) (e : Edit) (key : String) (l : List (String × String)) :
    first key ((h.edit e).toList ++ l) =
      (e.setting? key).or (first key (h.toList ++ (e.pushed?.toList ++ l))) := by
  cases e with
  | push k v => exact congrArg (first key) (List.append_assoc _ _ _)
  | set k v =>
    simp only [edit, set, Edit.setting?, Edit.pushed?, Option.toList_none, List.nil_append,
      first_append]
    by_cases hk : k = key
    · subst hk
      rw [first_replace_self, if_pos rfl]
      rfl
    · rw [first_replace_of_ne (Ne.symm hk), if_neg hk, Option.none_or]

/-- **Look-ups.**  After any edits a name has the value it was set to last, or else the value of the
first pair that ever had it. -/
theorem get?_editAll (h : Headers) (edits : List Edit) (key : String) :
    (h.editAll edits).get? key =
      (edits.filterMap (Edit.setting? key)).getLast?.or
        (first key (h.toList ++ edits.filterMap Edit.pushed?)) := by
  induction edits generalizing h with
  | nil =>
    rw [List.filterMap_nil, List.filterMap_nil, List.append_nil]
    rfl
  | cons e edits ih =>
    have hpushed : (e :: edits).filterMap Edit.pushed? =
        e.pushed?.toList ++ edits.filterMap Edit.pushed? := by
      cases e <;> rfl
    rw [editAll, List.foldl_cons, ← editAll, ih, first_edit, hpushed, List.filterMap_cons]
    -- a later setting counts before this one
    cases e.setting? key with
    | none => rw [Option.none_or]
    | some v =>
      rw [List.getLast?_cons]
      cases (edits.filterMap (Edit.setting? key)).getLast? <;> rfl

/-- **Laws of header lists.**  Of every list, repetitions of names included:

* a name that was set has that value, and all other names have the values they had;
* setting a name that is present changes the value of its first pair, and nothing else in the list;
  setting one that is missing appends a pair;
* of two settings of one name the later counts, and settings of two names commute if one of them is
  present;
* appending a header changes what its name has only if the name was missing, and nothing that other
  names have;
* after any edits a name has the value it was set to last, or else the value of the first pair that
  ever had it. -/
theorem header_laws (h : Headers) :
    (∀ key v, (h.set key v).get? key = some v ∧
      ∀ other, other ≠ key → (h.set key v).get? other = h.get? other) ∧
    (∀ key v, key ∈ h.names → (h.set key v).length = h.length ∧ (h.set key v).names = h.names ∧
      ∃ before old after, h.toList = before ++ (key, old) :: after ∧ key ∉ before.map Prod.fst ∧
        (h.set key v).toList = before ++ (key, v) :: after) ∧
    (∀ key v, key ∉ h.names → (h.set key v).toList = h.toList ++ [(key, v)]) ∧
    (∀ key v w, (h.set key v).set key w = h.set key w) ∧
    (∀ key other v w, key ≠ other → key ∈ h.names ∨ other ∈ h.names →
      (h.set key v).set other w = (h.set other w).set key v) ∧
    (∀ key v other, (h.push key v).get? other ≠ h.get? other →
      other = key ∧ key ∉ h.names ∧ (h.push key v).get? key = some v) ∧
    ∀ edits key, (h.editAll edits).get? key =
      (edits.filterMap (Edit.setting? key)).getLast?.or
        (first key (h.toList ++ edits.filterMap Edit.pushed?)) := by
  refine ⟨fun key v => ⟨get?_set_self h key v, fun other hne => get?_set_of_ne h hne v⟩, ?_,
    fun key v hkey => replace_of_not_mem hkey v, fun key v w => h.set_set key v w,
    fun key other v w hne hmem => set_comm hne hmem v w, fun key v other => of_get?_push_ne,
    h.get?_editAll⟩
  intro key v hkey
  obtain ⟨before, old, after, hl, hnot, hset⟩ := set_of_mem hkey v
  refine ⟨?_, ?_, before, old, after, hl, hnot, hset⟩
  · rw [length_set, if_pos]
    exact Option.isSome_iff_ne_none.2 fun hnone => get?_eq_none_iff.1 hnone hkey
  · rw [names, names, hset, hl, List.map_append, List.map_append]
    rfl

/-- In a list with a name that stands twice only the first of the two is set, and a third one that is
appended is not found. -/
theorem header_laws_givenTwice :
    let h : Headers := ⟨[("group", "a"), ("topic", "t"), ("group", "b")]⟩
    (h.set "group" "c").toList = [("group", "c"), ("topic", "t"), ("group", "b")] ∧
      (h.editAll [.set "group" "c", .push "group" "d", .set "topic" "u", .push "traceId" "1"]).get?
        "group" = some "c" ∧
      (h.editAll [.push "traceId" "1", .push "traceId" "2"]).get? "traceId" = some "1" := by
  intro h
  obtain ⟨-, hpresent, -, -, -, -, hedits⟩ := header_laws h
  obtain ⟨-, -, before, old, after, hl, hnot, hset⟩ := hpresent "group" "c" (by decide)
  refine ⟨?_, (hedits _ _).trans (by decide), (hedits _ _).trans (by decide)⟩
  cases before with
  | nil =>
    obtain ⟨-, rfl⟩ := List.cons.inj hl
    exact hset
  | cons e before =>
    obtain ⟨rfl, -⟩ := List.cons.inj hl
    exact absurd List.mem_cons_self hnot

end ConsumerGroup.Headers
