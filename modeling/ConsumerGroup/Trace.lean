import ConsumerGroup.Text.Blank

/-!
# Trace ids

A trace id names one piece of work through all its deliveries.  A message that brings none gets a
fresh one.  Where fresh ids come from is left open: whoever needs one is handed it.
-/

namespace ConsumerGroup

/-- A text that is not empty and has no blanks at its ends. -/
structure TraceId where
  /-- the text of the id -/
  text : String
  /-- it has no blanks at its ends -/
  trim_text : Text.trim text = text
  /-- it is not empty -/
  text_ne : text ≠ ""

namespace TraceId

instance : DecidableEq TraceId := fun a b =>
  if h : a.text = b.text then
    .isTrue (by cases a; cases b; cases h; rfl)
  else .isFalse fun he => h (congrArg text he)

instance : Inhabited TraceId := ⟨⟨"0", by decide +kernel, by decide⟩⟩

/-- The id a text stands for: the text without the blanks at its ends, unless nothing is left. -/
def ofText? (s : String) : Option TraceId :=
  if h : Text.trim s = "" then none else some ⟨Text.trim s, Text.trim_trim s, h⟩

/-- The id a header value stands for, or the fresh one when there is none. -/
def ofHeader (fresh : TraceId) (value : Option String) : TraceId :=
  (value.bind ofText?).getD fresh

/-- An id is read back from its own text. -/
@[simp] theorem ofText?_text (t : TraceId) : ofText? t.text = some t := by
  obtain ⟨s, ht, hn⟩ := t
  simp [ofText?, ht, hn]

@[simp] theorem ofHeader_text (fresh t : TraceId) : ofHeader fresh (some t.text) = t := by
  simp [ofHeader]

end TraceId

end ConsumerGroup
