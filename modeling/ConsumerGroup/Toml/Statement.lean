import ConsumerGroup.Toml.Number

/-!
# Statements of a settings document

A document is a list of statements, one a line: a header of a table, a header of one more table of a
list, or a key with a value.  Arrays may go over several lines.
-/

namespace ConsumerGroup.Toml

/-- A line of a document that says something. -/
inductive Statement where
  /-- what follows belongs to the table of that path -/
  | header (path : List String) (key : String)
  /-- what follows belongs to one more table at the end of the list at that path -/
  | itemHeader (path : List String) (key : String)
  /-- a key below a path gets a value -/
  | assignment (path : List String) (key : String) (value : Value)
  deriving Repr

/-- How deep values may be nested, and how many parts a key may have, plus one. -/
def depthLimit : Nat := 80

/-! ## Keys -/

/-- Characters of a key without quotes. -/
def isBareKey (c : Char) : Bool :=
  ('a' ≤ c && c ≤ 'z') || ('A' ≤ c && c ≤ 'Z') || isDecimal c || c = '_' || c = '-'

/-- Reads one part of a key. -/
def readKeyPart (cs : List Char) : Option (String × List Char) :=
  match readLine cs with
  | some r => some r
  | none =>
    let part := cs.takeWhile isBareKey
    if part.isEmpty then none else some (String.ofList part, cs.dropWhile isBareKey)

/-- Reads a key with dots: the parts before the last, and the last.  The first argument bounds the
number of parts. -/
def readKey : Nat → Reader (List String × String)
  | 0, _ => none
  | n + 1, cs =>
    (readKeyPart (skipSpace cs)).bind fun (part, cs) =>
      match skipSpace cs with
      | '.' :: cs => (readKey n cs).map fun ((path, last), cs) => ((part :: path, last), cs)
      | cs => some (([], part), cs)

/-! ## Space between values -/

/-- Removes the spaces, line ends and comments in front; with `comment`, a comment has begun.  Stops
at a character that no comment may hold. -/
def skipFiller (comment : Bool) : List Char → List Char
  | '\r' :: '\n' :: cs => skipFiller false cs
  | '\n' :: cs => skipFiller false cs
  | c :: cs =>
    if comment then (if isPlain c then skipFiller true cs else c :: cs)
    else if c = ' ' || c = '\t' then skipFiller false cs
    else if c = '#' then skipFiller true cs
    else c :: cs
  | [] => []

/-- Removes what may follow a statement on its line, and the end of the line. -/
def lineEnd? (cs : List Char) : Option (List Char) :=
  let rest :=
    match skipSpace cs with
    | '#' :: cs => cs.dropWhile isPlain
    | cs => cs
  if rest.isEmpty then some [] else newline? rest

/-! ## Values -/

/-- Reads the items of an array up to the closing bracket.  The first argument bounds the number of
steps. -/
def readItems (item : Reader Value) : Nat → List Value → Reader Value
  | 0, _, _ => none
  | n + 1, acc, cs =>
    match skipFiller false cs with
    | ']' :: cs => some (.array acc.reverse, cs)
    | cs =>
      (item cs).bind fun (v, cs) =>
        match skipFiller false cs with
        | ',' :: cs => readItems item n (v :: acc) cs
        | ']' :: cs => some (.array (v :: acc).reverse, cs)
        | _ => none

/-- Reads a key, the equals sign and a value. -/
def readPair (item : Reader Value) (cs : List Char) :
    Option ((List String × String × Value) × List Char) :=
  (readKey (depthLimit - 1) cs).bind fun ((path, key), cs) =>
  (expect '=' (skipSpace cs)).bind fun cs =>
  (item (skipSpace cs)).map fun (v, cs) => ((path, key, v), cs)

/-- Reads the pairs of a table in braces up to the closing brace.  The first argument bounds the
number of steps. -/
def readPairs (item : Reader Value) : Nat → Entries → Reader Value
  | 0, _, _ => none
  | n + 1, entries, cs =>
    (readPair item cs).bind fun ((path, key, v), cs) =>
    (Entries.assign path key v .inline entries).bind fun entries =>
      match skipSpace cs with
      | ',' :: cs => readPairs item n entries cs
      | '\x7d' :: cs => some (.table .inline entries, cs)
      | _ => none

/-- Reads a table in braces after the opening brace. -/
def readInlineTable (item : Reader Value) (cs : List Char) : Option (Value × List Char) :=
  match skipSpace cs with
  | '\x7d' :: cs => some (.table .inline [], cs)
  | cs => readPairs item (cs.length + 1) [] cs

/-- Reads a value.  The first argument is how many levels of arrays and tables it may have. -/
def readValue (depth : Nat) (cs : List Char) : Option (Value × List Char) :=
  match cs with
  | '[' :: rest =>
    match depth with
    | 0 => none
    | depth + 1 => readItems (readValue depth) (rest.length + 1) [] rest
  | '\x7b' :: rest =>
    match depth with
    | 0 => none
    | depth + 1 => readInlineTable (readValue depth) rest
  | '"' :: _ | '\'' :: _ => (readText cs).map fun (s, cs) => (.string s, cs)
  | 't' :: 'r' :: 'u' :: 'e' :: rest => some (.boolean true, rest)
  | 'f' :: 'a' :: 'l' :: 's' :: 'e' :: rest => some (.boolean false, rest)
  | cs => readNumeric cs

/-! ## Statements -/

/-- Reads a statement and the end of its line; nothing for a line that is empty or a comment. -/
def readStatement (cs : List Char) : Option (Option Statement × List Char) :=
  match skipSpace cs with
  | '[' :: '[' :: cs =>
    (readKey (depthLimit - 1) cs).bind fun ((path, key), cs) =>
    (expect ']' (skipSpace cs)).bind fun cs =>
    (expect ']' cs).bind fun cs =>
    (lineEnd? cs).map fun cs => (some (.itemHeader path key), cs)
  | '[' :: cs =>
    (readKey (depthLimit - 1) cs).bind fun ((path, key), cs) =>
    (expect ']' (skipSpace cs)).bind fun cs =>
    (lineEnd? cs).map fun cs => (some (.header path key), cs)
  | cs =>
    match lineEnd? cs with
    | some rest => some (none, rest)
    | none =>
      (readPair (readValue (depthLimit - 1)) cs).bind fun ((path, key, v), cs) =>
      (lineEnd? cs).map fun cs => (some (.assignment path key v), cs)

/-- Reads all statements.  The first argument bounds their number. -/
def readStatements : Nat → List Char → Option (List Statement)
  | _, [] => some []
  | 0, _ => none
  | n + 1, cs =>
    (readStatement cs).bind fun (s, cs) => (readStatements n cs).map (s.toList ++ ·)

end ConsumerGroup.Toml
