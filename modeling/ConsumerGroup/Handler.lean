import ConsumerGroup.Error
import ConsumerGroup.Table
import ConsumerGroup.Text.Numeral
import ConsumerGroup.Text.Quoted

/-!
# Handlers

What handles a message is seen from outside as a *program*: it waits, runs for a while, fails,
panics, or comes to its end.  A program can be read from the text of a message.

A set of handlers has at most one for each topic.
-/

namespace ConsumerGroup.Handler

/-- A thing a handler does. -/
inductive Action where
  /-- it waits until it is released -/
  | hold
  /-- it runs for so many milliseconds -/
  | pause (millis : Nat)
  /-- it ends with a failure -/
  | fail (failure : HandlerFailure)
  deriving Repr, DecidableEq

/-- What a handler does with a message; at the end it has succeeded. -/
abbrev Program := List Action

/-- How a handler ended: without a failure, or with one. -/
abbrev Outcome := Option HandlerFailure

/-- The name under which ends are counted. -/
def outcomeLabel : Outcome → String
  | none => "success"
  | some failure => if failure.isPanic then "panic" else "failure"

/-! ## Programs as text -/

/-- The longest pause that a text can ask for. -/
def maxPause : Nat := 18446744073709551615

/-- What a panic is said to be about when it says nothing. -/
def unknownPanic : String := "unknown panic"

/-- The characters before the first `c`, and those after it if there is one. -/
def splitFirst (c : Char) (cs : List Char) : List Char × Option (List Char) :=
  match cs.dropWhile (· ≠ c) with
  | [] => (cs, none)
  | _ :: after => (cs.takeWhile (· ≠ c), some after)

/-- The action that a verb with an argument asks for. -/
def actionOf? (verb argument : String) : Option Action :=
  if verb = "hold" then some .hold
  else if verb = "sleep" then some (.pause ((Text.readNumeral? maxPause argument).getD 0))
  else if verb = "fail" then some (.fail (.reported argument))
  else if verb = "panic" || verb = "panic_str" then some (.fail (.panicked argument))
  else if verb = "panic_other" then some (.fail (.panicked unknownPanic))
  else none

/-- The program at the start of a text: up to the first bar, verbs between commas, each with an
argument after an equals sign or with none.  Verbs that are not known do nothing. -/
def Program.ofText (text : String) : Program :=
  let head := String.ofList (splitFirst '|' text.toList).1
  (head.splitOn ",").filterMap fun step =>
    let (verb, argument) := splitFirst '=' step.toList
    actionOf? (String.ofList verb) (String.ofList (argument.getD []))

end ConsumerGroup.Handler

namespace ConsumerGroup

/-- Handlers by topic. -/
abbrev HandlerSet (η : Type) := Table String η

/-- The topics of a set of handlers, for people to read. -/
def HandlerSet.describe {η : Type} (handlers : HandlerSet η) : String :=
  "HandlerRegistry \x7b topics: [" ++ ", ".intercalate (handlers.keys.map Text.quote) ++ "] \x7d"

end ConsumerGroup
