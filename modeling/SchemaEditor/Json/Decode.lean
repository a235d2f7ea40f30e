import SchemaEditor.Json.Value

/-!
# Reading values of other types from JSON

Readers for the shapes that the formats of this library share. A record is written as an object of
its fields in any order, or as the array of its fields in their order; `Record` holds what was
found either way. A choice is written as its name, or as an object with its name as the only key
and its content as the value.
-/

namespace SchemaEditor.Json

/-- A text. -/
def text : Json → Option String
  | .str s => some s
  | _ => none

/-- A truth value. -/
def flag : Json → Option Bool
  | .bool b => some b
  | _ => none

/-- A natural number below `bound`, spelled in digits only. -/
def natBelow (bound : Nat) : Json → Option Nat
  | .num spelling =>
    match Text.Decimal.read? spelling.toList with
    | some n => if n < bound then some n else none
    | none => none
  | _ => none

/-- A list of values of one kind. -/
def list {α : Type} (read : Json → Option α) : Json → Option (List α)
  | .arr items => items.mapM read
  | _ => none

/-- A value or `null`. -/
def nullable {α : Type} (read : Json → Option α) : Json → Option (Option α)
  | .null => some none
  | j => (read j).map some

/-- A choice: its name and its content, if it has one. -/
def choice : Json → Option (String × Option Json)
  | .str s => some (s, none)
  | .obj [(k, j)] => some (k, some j)
  | _ => none

/-- The name of a choice without content; `null` counts as none. -/
def plainChoice (j : Json) : Option String :=
  match choice j with
  | some (name, none) | some (name, some .null) => some name
  | _ => none

/-- The fields found for a record. -/
structure Record where
  entries : List (String × Json)
  /-- Whether the record was written as an array. -/
  positional : Bool

namespace Record

/-- What was found for a field. -/
def get? (r : Record) (name : String) : Option Json := r.entries.lookup name

/-- A field that has to be there. -/
def required {α : Type} (r : Record) (name : String) (read : Json → Option α) : Option α :=
  (r.get? name).bind read

/-- A field that may be missing. -/
def defaulting {α : Type} (r : Record) (name : String) (value : α) (read : Json → Option α) :
    Option α :=
  match r.get? name with
  | none => some value
  | some j => read j

/-- A field that may be missing or `null`. -/
def optional {α : Type} (r : Record) (name : String) (read : Json → Option α) :
    Option (Option α) :=
  r.defaulting name none (nullable read)

/-- A field that may be `null`, and may be missing unless the record is written as an array. -/
def named {α : Type} (r : Record) (name : String) (read : Json → Option α) : Option (Option α) :=
  match r.get? name with
  | none => if r.positional then none else some none
  | some j => nullable read j

end Record

/-- The fields of a record with the given names. No field may be repeated; a field of another name
is refused if the record is `strict` and skipped otherwise. -/
def record (names : List String) (strict : Bool) : Json → Option Record
  | .obj fields =>
    let known := fields.filter fun f => names.contains f.1
    if (known.map (·.1)).Nodup ∧ (strict = false ∨ known.length = fields.length) then
      some ⟨known, false⟩
    else none
  | .arr items => if items.length ≤ names.length then some ⟨names.zip items, true⟩ else none
  | _ => none

end SchemaEditor.Json
