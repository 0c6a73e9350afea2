import ConsumerGroup.Text.Unprintable

/-!
# Quoted text

A text in double quotes on one line: quotes and backslashes are preceded by a backslash, the common
control characters have short forms, and every other character that is not shown as itself is
written by its code point.
-/

namespace ConsumerGroup.Text

/-- A number in lower-case hexadecimal digits. -/
def hexadecimal (n : Nat) : String := String.ofList (Nat.toDigits 16 n)

/-- The written form of one character between double quotes. -/
def quoteChar (c : Char) : String :=
  if c = '"' then "\\\""
  else if c = '\\' then "\\\\"
  else if c = '\n' then "\\n"
  else if c = '\r' then "\\r"
  else if c = '\t' then "\\t"
  else if c = '\x00' then "\\0"
  else if isUnprintable c then "\\u\x7b" ++ hexadecimal c.toNat ++ "\x7d"
  else c.toString

/-- The text in double quotes. -/
def quote (s : String) : String :=
  "\"" ++ String.join (s.toList.map quoteChar) ++ "\""

end ConsumerGroup.Text
