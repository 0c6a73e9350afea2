import ConsumerGroup.Toml.Quotation
import ConsumerGroup.Toml.Value

/-!
# Numbers and dates of a settings document

Whole numbers are of 64 bits with a sign, in four bases; digits may be grouped by single
underscores.  Numbers with a fraction must not exceed the largest finite double.  Dates and times
must exist in the calendar.
-/

namespace ConsumerGroup.Toml

/-! ## Digits -/

/-- Whether the character is a decimal digit. -/
def isDecimal (c : Char) : Bool := '0' ≤ c && c ≤ '9'

/-- Reads one digit or more in groups: an underscore stands between two digits. -/
def readGroups (isDigit : Char → Bool) : Reader (List Char)
  | [] => none
  | c :: cs =>
    if isDigit c then
      match cs with
      | '_' :: d :: rest =>
        if isDigit d then (readGroups isDigit (d :: rest)).map fun (ds, cs) => (c :: ds, cs)
        else none
      | ['_'] => none
      | d :: rest =>
        if isDigit d then (readGroups isDigit (d :: rest)).map fun (ds, cs) => (c :: ds, cs)
        else some ([c], cs)
      | [] => some ([c], [])
    else none

/-- The value of digits in a base. -/
def ofDigits (base : Nat) (digits : List Char) : Nat :=
  digits.foldl (fun n c => n * base + (hexValue? c).getD 0) 0

/-- Reads a decimal number without a sign and without leading zeros. -/
def readMagnitude : Reader (List Char)
  | '0' :: cs => some (['0'], cs)
  | cs => readGroups isDecimal cs

/-- Takes a sign off the front and tells whether it is a minus. -/
def takeSign : List Char → Bool × List Char
  | '-' :: cs => (true, cs)
  | '+' :: cs => (false, cs)
  | cs => (false, cs)

/-! ## Whole numbers -/

/-- The number, if 64 bits with a sign hold it. -/
def bounded? (n : Int) : Option Value :=
  if -9223372036854775808 ≤ n && n ≤ 9223372036854775807 then some (.integer n) else none

/-- Reads a whole number. -/
def readInteger : Reader Value
  | '0' :: 'x' :: cs => based 16 (fun c => (hexValue? c).isSome) cs
  | '0' :: 'o' :: cs => based 8 (fun c => '0' ≤ c && c ≤ '7') cs
  | '0' :: 'b' :: cs => based 2 (fun c => c = '0' || c = '1') cs
  | cs =>
    let (negative, cs) := takeSign cs
    (readMagnitude cs).bind fun (digits, cs) =>
      let n : Int := ofDigits 10 digits
      (bounded? (if negative then -n else n)).map (·, cs)
where
  /-- Reads the digits after the sign of the base. -/
  based (base : Nat) (isDigit : Char → Bool) (cs : List Char) : Option (Value × List Char) :=
    (readGroups isDigit cs).bind fun (digits, cs) =>
      (bounded? (ofDigits base digits)).map (·, cs)

/-! ## Numbers with a fraction -/

/-- Whether `m * 10 ^ e` rounds to a finite double: it lies below the middle between the largest one
and the power of two above it.  Powers that are far away are not computed. -/
def roundsToFinite (m : Nat) (e : Int) : Bool :=
  let size : Int := (Nat.toDigits 10 m).length + e
  if m = 0 || size < 300 then true
  else if size > 400 then false
  else
    let limit := Nat.pow 2 1024 - Nat.pow 2 970
    if 0 ≤ e then m * Nat.pow 10 e.toNat < limit else m < limit * Nat.pow 10 (-e).toNat

/-- Reads a fraction, if a point stands in front. -/
def readFraction : Reader (List Char)
  | '.' :: cs => readGroups isDecimal cs
  | cs => some ([], cs)

/-- Reads an exponent, if its letter stands in front. -/
def readExponent : Reader (Option Int)
  | c :: cs =>
    if c = 'e' || c = 'E' then
      let (negative, cs) := takeSign cs
      (readGroups isDecimal cs).map fun (digits, cs) =>
        let n : Int := ofDigits 10 digits
        (some (if negative then -n else n), cs)
    else some (none, c :: cs)
  | [] => some (none, [])

/-- Reads a number with a fraction or an exponent, or one of the two names. -/
def readFloat (cs : List Char) : Option (Value × List Char) :=
  let (negative, cs) := takeSign cs
  match cs with
  | 'i' :: 'n' :: 'f' :: cs => some (.float, cs)
  | 'n' :: 'a' :: 'n' :: cs => some (.float, cs)
  | cs =>
    (readMagnitude cs).bind fun (whole, cs) =>
    (readFraction cs).bind fun (fraction, cs) =>
    (readExponent cs).bind fun (exponent, cs) =>
      if fraction.isEmpty && exponent.isNone then none
      else
        let m := ofDigits 10 (whole ++ fraction)
        let e := exponent.getD 0 - fraction.length
        if negative || roundsToFinite m e then some (.float, cs) else none

/-! ## Dates and times -/

/-- Reads exactly that many decimal digits. -/
def readFixed (count : Nat) : Reader Nat := fun cs =>
  let digits := cs.take count
  if digits.length = count && digits.all isDecimal then
    some (ofDigits 10 digits, cs.drop count)
  else none

/-- Reads two digits of a number within bounds. -/
def readWithin (low high : Nat) : Reader Nat := fun cs =>
  (readFixed 2 cs).bind fun (n, cs) => if low ≤ n && n ≤ high then some (n, cs) else none

/-- Removes one given character. -/
def expect (c : Char) : List Char → Option (List Char)
  | d :: cs => if d = c then some cs else none
  | [] => none

/-- How many days a month has. -/
def daysInMonth (year month : Nat) : Nat :=
  if month = 2 then
    if year % 4 = 0 && (year % 100 ≠ 0 || year % 400 = 0) then 29 else 28
  else if month = 4 || month = 6 || month = 9 || month = 11 then 30
  else 31

/-- Passes over a date. -/
def skipDate (cs : List Char) : Option (List Char) :=
  (readFixed 4 cs).bind fun (year, cs) =>
  (expect '-' cs).bind fun cs =>
  (readWithin 1 12 cs).bind fun (month, cs) =>
  (expect '-' cs).bind fun cs =>
  (readWithin 1 31 cs).bind fun (day, cs) =>
    if day ≤ daysInMonth year month then some cs else none

/-- Passes over the fraction of a second, if there is one. -/
def skipSecondFraction : List Char → List Char
  | '.' :: d :: cs => if isDecimal d then cs.dropWhile isDecimal else '.' :: d :: cs
  | cs => cs

/-- Passes over a time of day. -/
def skipTime (cs : List Char) : Option (List Char) :=
  (readWithin 0 23 cs).bind fun (_, cs) =>
  (expect ':' cs).bind fun cs =>
  (readWithin 0 59 cs).bind fun (_, cs) =>
  (expect ':' cs).bind fun cs =>
  (readWithin 0 60 cs).map fun (_, cs) => skipSecondFraction cs

/-- Passes over the distance to universal time, if there is one. -/
def skipZone : List Char → Option (List Char)
  | c :: cs =>
    if c = 'Z' || c = 'z' then some cs
    else if c = '+' || c = '-' then
      (readWithin 0 23 cs).bind fun (_, cs) =>
      (expect ':' cs).bind fun cs =>
      (readWithin 0 59 cs).map fun (_, cs) => cs
    else some (c :: cs)
  | [] => some []

/-- Reads a date, a time of day, or a date with a time. -/
def readDatetime (cs : List Char) : Option (Value × List Char) :=
  match skipDate cs with
  | some rest =>
    match rest with
    | c :: after =>
      if c = 'T' || c = 't' || c = ' ' then
        match skipTime after with
        | some after => (skipZone after).map (Value.datetime, ·)
        | none => some (.datetime, rest)
      else some (.datetime, rest)
    | [] => some (.datetime, [])
  | none => (skipTime cs).map (Value.datetime, ·)

/-- Reads a date, a number with a fraction, or a whole number. -/
def readNumeric (cs : List Char) : Option (Value × List Char) :=
  match readDatetime cs with
  | some r => some r
  | none =>
    match readFloat cs with
    | some r => some r
    | none => readInteger cs

end ConsumerGroup.Toml
