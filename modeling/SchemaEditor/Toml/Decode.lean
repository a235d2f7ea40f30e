import SchemaEditor.Toml.Value

/-!
# Reading values of other types from TOML

A record is written as a table of its fields, or as an array of its fields in their order; entries
of such an array beyond the last field are skipped.
-/

namespace SchemaEditor.Toml

/-- A text. -/
def text : Toml → Option String
  | .str s => some s
  | _ => none

/-- A truth value. -/
def flag : Toml → Option Bool
  | .bool b => some b
  | _ => none

/-- An integer that is not negative. -/
def natural : Toml → Option Nat
  | .int n => if 0 ≤ n then some n.toNat else none
  | _ => none

/-- A list of values of one kind. -/
def list {α : Type} (read : Toml → Option α) : Toml → Option (List α)
  | .arr items => items.mapM read
  | _ => none

/-- The fields of a table that has no others than the given ones. -/
def strict (names : List String) (fields : List (String × Toml)) :
    Option (List (String × Toml)) :=
  if fields.all fun f => names.contains f.1 then some fields else none

/-- The fields of a record with the given names. -/
def record (names : List String) : Toml → Option (List (String × Toml))
  | .table fields => strict names fields
  | .arr items => some (names.zip items)
  | _ => none

/-- A field that may be missing. -/
def optional {α : Type} (fields : List (String × Toml)) (name : String)
    (read : Toml → Option α) : Option (Option α) :=
  match fields.lookup name with
  | none => some none
  | some v => (read v).map some

end SchemaEditor.Toml
