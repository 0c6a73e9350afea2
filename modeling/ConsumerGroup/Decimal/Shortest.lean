/-!
# Shortest decimal numerals

The decimal number with the fewest digits that reads back as a given double, and of those with that
many digits the nearest one.

A double is `m * 2 ^ q`.  The numbers that read back as it fill an interval; its ends belong to it
when `m` is even.  If a grid of decimal numbers has a point in the interval, then the point of the
grid below the double or the one above it is in the interval, so these two are tried for one digit,
two digits, and so on.
-/

namespace ConsumerGroup.Decimal

/-- A decimal number `digits * 10 ^ exponent`. -/
structure Numeral where
  /-- all digits, as one number -/
  digits : Nat
  /-- the power of ten they are multiplied with -/
  exponent : Int
  deriving Repr, DecidableEq, Inhabited

/-- A positive double `m * 2 ^ q` with its interval: all three numbers are multiples of
`2 ^ scale`. -/
structure Interval where
  /-- the lower end -/
  low : Nat
  /-- the double -/
  value : Nat
  /-- the upper end -/
  high : Nat
  /-- the power of two they are multiples of -/
  scale : Int
  /-- whether the ends belong to it -/
  closed : Bool

/-- The interval of `m * 2 ^ q`; below a power of two the doubles are twice as dense. -/
def interval (m : Nat) (q : Int) (power : Bool) : Interval where
  low := if power then 4 * m - 1 else 4 * m - 2
  value := 4 * m
  high := 4 * m + 2
  scale := q - 2
  closed := m % 2 = 0

/-- How many decimal digits a number has. -/
def digitCount (n : Nat) : Nat := (Nat.toDigits 10 n).length

/-- The numerator and the denominator of `n * 2 ^ scale * 10 ^ shift`. -/
def scaled (n : Nat) (scale shift : Int) : Nat × Nat :=
  (n * Nat.pow 2 scale.toNat * Nat.pow 10 shift.toNat,
    Nat.pow 2 (-scale).toNat * Nat.pow 10 (-shift).toNat)

/-- The place of the first digit: the number lies between `10 ^ (p - 1)`, included, and `10 ^ p`. -/
def magnitude (n : Nat) (scale : Int) : Int :=
  let (num, den) := scaled n scale 0
  let p : Int := digitCount num - digitCount den
  let (num', den') := scaled n scale (-p)
  if num' < den' then p else p + 1

/-- Whether a point of the grid of step `10 ^ (-shift)` lies in the interval. -/
def Interval.holds (i : Interval) (shift : Int) (point : Nat) : Bool :=
  let (low, den) := scaled i.low i.scale shift
  let (high, _) := scaled i.high i.scale shift
  if i.closed then low ≤ point * den && point * den ≤ high
  else low < point * den && point * den < high

/-- The numeral of a point of the grid of step `10 ^ (-shift)`; `10 ^ count`, which is the only point
with more than `count` digits, is a power of ten. -/
def gridPoint (count : Nat) (shift : Int) (point : Nat) : Numeral :=
  if point = Nat.pow 10 count then ⟨1, count - shift⟩ else ⟨point, -shift⟩

/-- The numeral of at most `count` digits that reads back as the double, if there is one. -/
def candidate? (i : Interval) (p : Int) (count : Nat) : Option Numeral :=
  let shift : Int := count - p
  let numeral := gridPoint count shift
  let (num, den) := scaled i.value i.scale shift
  let below := num / den
  let above := below + 1
  let belowIsNearer := 2 * num ≤ (below + above) * den
  match i.holds shift below, i.holds shift above with
  | true, true => some (numeral (if belowIsNearer then below else above))
  | true, false => some (numeral below)
  | false, true => some (numeral above)
  | false, false => none

/-- The shortest numeral of a positive double; seventeen digits are always enough. -/
def shortest (i : Interval) : Numeral :=
  let p := magnitude i.value i.scale
  ((List.range 17).findSome? fun k => candidate? i p (k + 1)).getD default

/-- The numeral written out without an exponent. -/
def Numeral.positional (n : Numeral) : String :=
  let digits := Nat.repr n.digits
  if 0 ≤ n.exponent then digits ++ String.ofList (List.replicate n.exponent.toNat '0')
  else
    let places := (-n.exponent).toNat
    let padded := List.replicate (places + 1 - digits.length) '0' ++ digits.toList
    String.ofList (padded.take (padded.length - places)) ++ "."
      ++ String.ofList (padded.drop (padded.length - places))

/-- The text of a double: the shortest numeral without an exponent, with a minus also for the
negative zero. -/
def text (x : Float) : String :=
  let bits := x.toBits.toNat
  let negative := Nat.pow 2 63 ≤ bits
  let biased := bits / Nat.pow 2 52 % Nat.pow 2 11
  let fraction := bits % Nat.pow 2 52
  let unsigned :=
    if biased = 2047 then if fraction = 0 then "inf" else "NaN"
    else if biased = 0 then
      if fraction = 0 then "0" else (shortest (interval fraction (-1074) false)).positional
    else
      let power := fraction = 0 && 1 < biased
      (shortest (interval (Nat.pow 2 52 + fraction) (Int.ofNat biased - 1075) power)).positional
  if negative && unsigned ≠ "NaN" then "-" ++ unsigned else unsigned

/-- The double nearest to a whole number. -/
def ofInt (n : Int) : Float :=
  if n < 0 then -(Float.ofScientific n.natAbs false 0) else Float.ofScientific n.natAbs false 0

end ConsumerGroup.Decimal
