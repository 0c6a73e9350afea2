import ConsumerGroup.Text.LetterCase

/-!
# Lower case

The lower-case form of a text, character by character.  Two characters do not follow the table of
runs: a capital sigma at the end of a word becomes a final sigma, and a capital I with a dot above
becomes two characters.
-/

namespace ConsumerGroup.Text

/-- The character the table of runs gives for `c`, which is `c` itself outside the runs. -/
def lowerChar (c : Char) : Char :=
  match lowerRuns.find? fun (first, last, stride, _) =>
      first ≤ c.toNat && c.toNat ≤ last && (c.toNat - first) % stride == 0 with
  | some (_, _, _, distance) => Char.ofNat (Int.toNat (c.toNat + distance))
  | none => c

/-- Whether the first character that may not be passed over is cased. -/
def startsCased (cs : List Char) : Bool :=
  match cs.dropWhile isCaseIgnorable with
  | c :: _ => isCased c
  | [] => false

/-- Lower-cases the characters `rest`, which follow the characters `before`, given last first.  A
capital sigma is final when a letter comes before it and none after it. -/
def lowerChars (before : List Char) : List Char → List Char
  | [] => []
  | c :: rest =>
    let lowered :=
      if c = 'Σ' then
        if startsCased before && !startsCased rest then ['ς'] else ['σ']
      else if c = 'İ' then ['i', '\u0307']
      else [lowerChar c]
    lowered ++ lowerChars (c :: before) rest

/-- The lower-case form of a text. -/
def lower (s : String) : String := String.ofList (lowerChars [] s.toList)

end ConsumerGroup.Text
