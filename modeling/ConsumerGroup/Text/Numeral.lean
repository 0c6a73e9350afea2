/-!
# Decimal numerals

`readNumeral?` reads an unsigned decimal numeral with an optional plus sign and an upper limit;
`Nat.repr` writes one.
-/

namespace ConsumerGroup.Text

/-- The value of a decimal digit of the ASCII range. -/
def digitValue? (c : Char) : Option Nat :=
  if '0' ≤ c && c ≤ '9' then some (c.toNat - '0'.toNat) else none

/-- Reads further digits after the value `value`, none if one of the characters is no digit or the
value exceeds the limit on the way. -/
def readDigits? (limit : Nat) (value : Nat) : List Char → Option Nat
  | [] => some value
  | c :: cs =>
    match digitValue? c with
    | none => none
    | some d => if value * 10 + d ≤ limit then readDigits? limit (value * 10 + d) cs else none

/-- Reads one digit or more, up to the limit. -/
def readUnsigned? (limit : Nat) (cs : List Char) : Option Nat :=
  match cs with
  | [] => none
  | cs => readDigits? limit 0 cs

/-- Reads a numeral: an optional plus sign, then one digit or more, of a value up to the limit. -/
def readNumeral? (limit : Nat) (s : String) : Option Nat :=
  match s.toList with
  | '+' :: cs => readUnsigned? limit cs
  | cs => readUnsigned? limit cs

end ConsumerGroup.Text
