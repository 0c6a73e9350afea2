/-!
# Header lists

A message carries an ordered list of named text values.  Names may repeat; a look-up answers with
the first value of a name, and `set` replaces exactly that one.

Main statements: `get?_set_self`, `get?_set_of_ne`, `get?_push` and `length_set`.
-/

namespace ConsumerGroup

/-- An ordered list of headers, repetitions kept. -/
structure Headers where
  /-- the pairs of name and value, first to last -/
  toList : List (String × String) := []
  deriving Repr, DecidableEq, Inhabited

namespace Headers

/-! ## Names that this library reads and writes -/

/-- Names the group a message is addressed to. -/
def groupKey : String := "group"

/-- Names the topic a message was first published to. -/
def topicKey : String := "topic"

/-- Carries the trace id. -/
def traceKey : String := "traceId"

/-- Counts the redeliveries so far. -/
def retryKey : String := "retryTimes"

/-! ## Operations -/

/-- The value of the first pair of that name. -/
def first (key : String) : List (String × String) → Option String
  | [] => none
  | (k, v) :: rest => if k = key then some v else first key rest

/-- Replaces the value of the first pair of that name, or appends a pair. -/
def replace (key value : String) : List (String × String) → List (String × String)
  | [] => [(key, value)]
  | (k, v) :: rest => if k = key then (k, value) :: rest else (k, v) :: replace key value rest

/-- The value of the first header of that name. -/
def get? (h : Headers) (key : String) : Option String := first key h.toList

/-- Replaces the value of the first header of that name, or appends the header. -/
def set (h : Headers) (key value : String) : Headers := ⟨replace key value h.toList⟩

/-- Appends a header, whether or not its name is present. -/
def push (h : Headers) (key value : String) : Headers := ⟨h.toList ++ [(key, value)]⟩

/-- How many headers there are. -/
def length (h : Headers) : Nat := h.toList.length

/-- Whether there is no header. -/
def isEmpty (h : Headers) : Bool := h.toList.isEmpty

/-! ## Laws -/

theorem first_replace_self (key value : String) (l : List (String × String)) :
    first key (replace key value l) = some value := by
  induction l with
  | nil => simp [replace, first]
  | cons e l ih =>
    by_cases h : e.1 = key
    · simp [replace, first, h]
    · simp [replace, first, h, ih]

theorem first_replace_of_ne {key other : String} (h : other ≠ key) (value : String)
    (l : List (String × String)) : first other (replace key value l) = first other l := by
  induction l with
  | nil => simp [replace, first, Ne.symm h]
  | cons e l ih =>
    by_cases he : e.1 = key
    · simp [replace, first, he, Ne.symm h]
    · simp [replace, first, he, ih]

@[simp] theorem get?_set_self (h : Headers) (key value : String) :
    (h.set key value).get? key = some value :=
  first_replace_self key value h.toList

@[simp] theorem get?_set_of_ne (h : Headers) {key other : String} (hne : other ≠ key)
    (value : String) : (h.set key value).get? other = h.get? other :=
  first_replace_of_ne hne value h.toList

@[simp] theorem get?_empty (key : String) : ({} : Headers).get? key = none := rfl

theorem first_append (key : String) (l l' : List (String × String)) :
    first key (l ++ l') = (first key l).or (first key l') := by
  induction l with
  | nil => rfl
  | cons e l ih =>
    by_cases h : e.1 = key
    · simp [first, h]
    · simp [first, h, ih]

/-- A header that is appended is found unless there is one of its name before it. -/
theorem get?_push (h : Headers) (key value other : String) :
    (h.push key value).get? other = (h.get? other).or (if key = other then some value else none) :=
  first_append other h.toList [(key, value)]

/-- Setting a name that is present keeps the number of headers; else it grows by one. -/
theorem length_set (h : Headers) (key value : String) :
    (h.set key value).length = if (h.get? key).isSome then h.length else h.length + 1 := by
  obtain ⟨l⟩ := h
  simp only [set, length, get?]
  induction l with
  | nil => rfl
  | cons e l ih =>
    by_cases he : e.1 = key
    · simp [replace, first, he]
    · simp only [replace, first, he, if_false, List.length_cons, ih]
      split <;> rename_i hi <;> simp [hi]

end Headers

end ConsumerGroup
