import SchemaEditor.Text.Casing.Table

/-!
# Upper and lower case of one character

Full case mapping without context: one character may become several (`ß` becomes `SS`). Texts are
cased in their first character only, which is all that names need.
-/

namespace SchemaEditor.Text

namespace Casing

/-- The form of `c` under a table of expansions and a table of runs; `c` itself when neither
lists it. -/
def mapped (expansions : List (Nat × List Nat)) (runs : List Run) (c : Char) : List Char :=
  match expansions.find? (·.1 == c.toNat) with
  | some (_, codes) => codes.map Char.ofNat
  | none =>
    match runs.find? (·.contains c.toNat) with
    | some run => [Char.ofNat (run.target c.toNat)]
    | none => [c]

end Casing

/-- The upper-case form of a character. -/
def upper (c : Char) : List Char :=
  Casing.mapped Casing.upperExpansions Casing.upperRuns c

/-- The lower-case form of a character. -/
def lower (c : Char) : List Char :=
  Casing.mapped Casing.lowerExpansions Casing.lowerRuns c

/-- Whether a character has the property `Uppercase`. -/
def isUppercase (c : Char) : Bool :=
  Casing.uppercaseRuns.any (·.contains c.toNat)

/-- Replaces the first character of a text by its form under `f`. -/
def mapFirst (f : Char → List Char) (s : String) : String :=
  match s.toList with
  | [] => ""
  | c :: cs => String.ofList (f c ++ cs)

/-- A text with its first character in upper case. -/
def upperFirst (s : String) : String := mapFirst upper s

/-- A text with its first character in lower case. -/
def lowerFirst (s : String) : String := mapFirst lower s

end SchemaEditor.Text
