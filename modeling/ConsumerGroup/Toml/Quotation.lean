import ConsumerGroup.Text.Numeral

/-!
# Quoted texts of a settings document

The four written forms of a text: in double quotes with escapes, in single quotes without, and both
over several lines in triple quotes.  A reader takes characters from the front and returns the text
and the characters that are left.
-/

namespace ConsumerGroup.Toml

/-- A reader takes characters from the front of its input, or refuses it. -/
abbrev Reader (α : Type) := List Char → Option (α × List Char)

/-- Characters that may stand in a comment and, apart from the quote and the escape sign, in a
text: the tab, and everything that is no control character. -/
def isPlain (c : Char) : Bool := c = '\t' || (' ' ≤ c && c ≠ '\x7F')

/-- The value of a hexadecimal digit. -/
def hexValue? (c : Char) : Option Nat :=
  if '0' ≤ c && c ≤ '9' then some (c.toNat - '0'.toNat)
  else if 'a' ≤ c && c ≤ 'f' then some (c.toNat - 'a'.toNat + 10)
  else if 'A' ≤ c && c ≤ 'F' then some (c.toNat - 'A'.toNat + 10)
  else none

/-- Reads exactly that many hexadecimal digits after the value `value`. -/
def readHex : Nat → Nat → Reader Nat
  | 0, value, cs => some (value, cs)
  | _ + 1, _, [] => none
  | n + 1, value, c :: cs =>
    match hexValue? c with
    | some d => readHex n (value * 16 + d) cs
    | none => none

/-- The character of a code point that is one. -/
def scalar? (n : Nat) : Option Char := if h : n.isValidChar then some (Char.ofNatAux n h) else none

/-- Reads what follows the escape sign. -/
def readEscape : Reader Char
  | 'b' :: cs => some ('\x08', cs)
  | 't' :: cs => some ('\t', cs)
  | 'n' :: cs => some ('\n', cs)
  | 'f' :: cs => some ('\x0C', cs)
  | 'r' :: cs => some ('\r', cs)
  | '"' :: cs => some ('"', cs)
  | '\\' :: cs => some ('\\', cs)
  | 'u' :: cs => (readHex 4 0 cs).bind fun (n, cs) => (scalar? n).map (·, cs)
  | 'U' :: cs => (readHex 8 0 cs).bind fun (n, cs) => (scalar? n).map (·, cs)
  | _ => none

/-- Removes the spaces and tabs in front. -/
def skipSpace (cs : List Char) : List Char := cs.dropWhile fun c => c = ' ' || c = '\t'

/-- Removes a line end in front, if there is one. -/
def newline? : List Char → Option (List Char)
  | '\n' :: cs => some cs
  | '\r' :: '\n' :: cs => some cs
  | _ => none

/-- Removes the spaces, tabs and line ends in front. -/
def skipLines : List Char → List Char
  | '\r' :: '\n' :: cs => skipLines cs
  | c :: cs => if c = ' ' || c = '\t' || c = '\n' then skipLines cs else c :: cs
  | [] => []

/-- Reads up to the closing double quote.  The first argument bounds the number of steps. -/
def readBasic : Nat → List Char → Reader String
  | 0, _, _ => none
  | _ + 1, acc, '"' :: cs => some (String.ofList acc.reverse, cs)
  | n + 1, acc, '\\' :: cs => (readEscape cs).bind fun (c, cs) => readBasic n (c :: acc) cs
  | n + 1, acc, c :: cs => if isPlain c then readBasic n (c :: acc) cs else none
  | _ + 1, _, [] => none

/-- Reads up to the closing single quote. -/
def readLiteral (acc : List Char) : Reader String
  | '\'' :: cs => some (String.ofList acc.reverse, cs)
  | c :: cs => if isPlain c then readLiteral (c :: acc) cs else none
  | [] => none

/-- How many of these quotes stand in front, and what follows them. -/
def countQuotes (quote : Char) (cs : List Char) : Nat × List Char :=
  ((cs.takeWhile (· = quote)).length, cs.dropWhile (· = quote))

/-- Reads a text over several lines up to three closing quotes; one or two quotes belong to the
text, also right before the closing three.  Escapes are read if `escapes` says so.  The first
argument bounds the number of steps. -/
def readMultiline (quote : Char) (escapes : Bool) : Nat → List Char → Reader String
  | 0, _, _ => none
  | n + 1, acc, cs =>
    match countQuotes quote cs with
    | (0, _) =>
      match newline? cs with
      | some cs => readMultiline quote escapes n ('\n' :: acc) cs
      | none =>
        match cs with
        | [] => none
        | c :: cs =>
          if escapes && c = '\\' then
            match newline? (skipSpace cs) with
            | some cs => readMultiline quote escapes n acc (skipLines cs)
            | none => (readEscape cs).bind fun (c, cs) =>
              readMultiline quote escapes n (c :: acc) cs
          else if isPlain c then readMultiline quote escapes n (c :: acc) cs
          else none
    | (quotes, rest) =>
      if quotes < 3 then readMultiline quote escapes n (List.replicate quotes quote ++ acc) rest
      else if quotes < 6 then
        some (String.ofList (List.replicate (quotes - 3) quote ++ acc).reverse, rest)
      else none

/-- Removes the line end that may follow three opening quotes. -/
def skipFirstNewline (cs : List Char) : List Char := (newline? cs).getD cs

/-- Reads a text of one line in quotes. -/
def readLine : Reader String
  | '"' :: cs => readBasic (cs.length + 1) [] cs
  | '\'' :: cs => readLiteral [] cs
  | _ => none

/-- Reads a text in any of the four forms. -/
def readText : Reader String
  | '"' :: '"' :: '"' :: cs => readMultiline '"' true (cs.length + 1) [] (skipFirstNewline cs)
  | '\'' :: '\'' :: '\'' :: cs =>
    readMultiline '\'' false (cs.length + 1) [] (skipFirstNewline cs)
  | cs => readLine cs

end ConsumerGroup.Toml
