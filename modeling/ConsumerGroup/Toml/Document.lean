import ConsumerGroup.Toml.Statement

/-!
# Settings documents

The table that the statements of a document build.  A key is given a value once; a table gets a
header once, unless it is an item of a list; what a value or braces made is not added to.
-/

namespace ConsumerGroup.Toml

namespace Entries

/-- Makes the table that a header names, or gives a header to one that others have implied. -/
def openTable (key : String) (entries : Entries) : Option Entries :=
  match get? key entries with
  | none => some (entries ++ [(key, .table .headed [])])
  | some (.table .implied below) => some (replace key (.table .headed below) entries)
  | some _ => none

/-- Makes one more table of a list. -/
def openItem (key : String) (entries : Entries) : Option Entries :=
  match get? key entries with
  | none => some (entries ++ [(key, .tables [[]])])
  | some (.tables items) => some (replace key (.tables (items ++ [[]])) entries)
  | some _ => none

end Entries

/-- A document that is being built. -/
structure Draft where
  /-- the whole table -/
  root : Entries := []
  /-- where the table of the last header is -/
  current : List String := []

/-- What a statement does to the document. -/
def Draft.apply (d : Draft) : Statement → Option Draft
  | .header path key =>
    (Entries.descend false (fun _ => Entries.openTable key) path .headed d.root).map
      fun root => ⟨root, path ++ [key]⟩
  | .itemHeader path key =>
    (Entries.descend false (fun _ => Entries.openItem key) path .headed d.root).map
      fun root => ⟨root, path ++ [key]⟩
  | .assignment path key value =>
    (Entries.descend false (Entries.assign path key value) d.current .headed d.root).map
      fun root => { d with root }

/-- The table that a text describes, if it is a document. -/
def parse? (text : String) : Option Entries :=
  let cs :=
    match text.toList with
    | '\uFEFF' :: cs => cs
    | cs => cs
  (readStatements (cs.length + 1) cs).bind fun statements =>
    (statements.foldlM Draft.apply {}).map Draft.root

end ConsumerGroup.Toml
