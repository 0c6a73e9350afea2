import ConsumerGroup.Text.Blank
import ConsumerGroup.Text.LowerCase

/-!
# Log format

How log lines are written: for people, or as data.
-/

namespace ConsumerGroup

/-- The two formats. -/
inductive LogFormat where
  /-- for people -/
  | pretty
  /-- as data -/
  | json
  deriving Repr, DecidableEq, Inhabited

namespace LogFormat

/-- The environment variable that names the format. -/
def variableName : String := "LOG_FORMAT"

/-- The format of a name; any other name stands for the format for people. -/
def ofText (s : String) : LogFormat :=
  if Text.lower (Text.trim s) = "json" then json else pretty

/-- The format that the value of the environment variable names. -/
def ofEnvironment (value : Option String) : LogFormat := (value.map ofText).getD pretty

end LogFormat

end ConsumerGroup
