/-!
# Reading bytes as text

`decode?` reads bytes that are a well-formed UTF-8 text and refuses all others.  `decodeLossy`
reads any bytes: each longest part that could still begin a character, and each byte that cannot,
is replaced by one U+FFFD.
-/

namespace ConsumerGroup.Text

/-- The text whose UTF-8 form the bytes are, if there is one. -/
def decode? (bytes : ByteArray) : Option String :=
  String.fromUTF8? bytes

/-- The UTF-8 form of a text. -/
def encode (s : String) : ByteArray := s.toUTF8

/-- How many bytes follow a first byte, and the range of the first of them; none for a byte that
starts no character. -/
def continuation (first : UInt8) : Option (Nat × UInt8 × UInt8) :=
  if first < 0x80 then some (0, 0x80, 0xBF)
  else if first < 0xC2 then none
  else if first < 0xE0 then some (1, 0x80, 0xBF)
  else if first == 0xE0 then some (2, 0xA0, 0xBF)
  else if first == 0xED then some (2, 0x80, 0x9F)
  else if first < 0xF0 then some (2, 0x80, 0xBF)
  else if first == 0xF0 then some (3, 0x90, 0xBF)
  else if first < 0xF4 then some (3, 0x80, 0xBF)
  else if first == 0xF4 then some (3, 0x80, 0x8F)
  else none

/-- The payload bits of a first byte that `following` bytes follow. -/
def leadBits (first : UInt8) (following : Nat) : Nat :=
  match following with
  | 0 => first.toNat
  | 1 => first.toNat % 0x20
  | 2 => first.toNat % 0x10
  | _ => first.toNat % 0x08

/-- Takes at most `wanted` continuation bytes, the first of them between `low` and `high`.  Returns
the code point read so far, how many bytes are still missing, and the bytes not taken. -/
def takeContinuation (value : Nat) : Nat → UInt8 → UInt8 → List UInt8 → Nat × Nat × List UInt8
  | 0, _, _, bytes => (value, 0, bytes)
  | wanted + 1, _, _, [] => (value, wanted + 1, [])
  | wanted + 1, low, high, b :: bytes =>
    if low ≤ b && b ≤ high then
      takeContinuation (value * 0x40 + b.toNat % 0x40) wanted 0x80 0xBF bytes
    else (value, wanted + 1, b :: bytes)

theorem takeContinuation_length (value wanted : Nat) (low high : UInt8) (bytes : List UInt8) :
    (takeContinuation value wanted low high bytes).2.2.length ≤ bytes.length := by
  induction wanted generalizing value low high bytes with
  | zero => simp [takeContinuation]
  | succ wanted ih =>
    cases bytes with
    | nil => simp [takeContinuation]
    | cons b bytes =>
      rw [takeContinuation]
      split
      · exact Nat.le_trans (ih _ _ _ _) (Nat.le_succ _)
      · exact Nat.le_refl _

/-- The characters of a list of bytes, with U+FFFD for what is no character. -/
def decodeBytes : List UInt8 → List Char
  | [] => []
  | first :: bytes =>
    match continuation first with
    | none => '\uFFFD' :: decodeBytes bytes
    | some (following, low, high) =>
      match _h : takeContinuation (leadBits first following) following low high bytes with
      | (value, missing, rest) =>
        (if missing = 0 then Char.ofNat value else '\uFFFD') :: decodeBytes rest
termination_by bytes => bytes.length
decreasing_by
  · exact Nat.lt_succ_self _
  · have hle := takeContinuation_length (leadBits first following) following low high bytes
    rw [_h] at hle
    exact Nat.lt_succ_of_le hle

/-- The bytes read as text, with U+FFFD for what is no character. -/
def decodeLossy (bytes : ByteArray) : String := String.ofList (decodeBytes bytes.toList)

end ConsumerGroup.Text
