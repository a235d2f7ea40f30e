import SchemaEditor.Toml.Value

/-!
# Tables under construction

The fields of a table while a document is being read. A table remembers how it came about, because
that decides how it may still grow: a table that has its own header or is written inline is not
extended by dotted keys, and one that dotted keys made gets no header.
-/

namespace SchemaEditor.Toml

/-- How a table came about. -/
inductive Origin where
  /-- By its own header, or as the whole document. -/
  | header
  /-- As a table around another one that has a header. -/
  | implied
  /-- By a dotted key. -/
  | dotted
  deriving DecidableEq

/-- What stands under a key. -/
inductive Item where
  | value (v : Toml)
  | table (origin : Origin) (fields : List (String × Item))
  /-- A list of tables, the last one first. -/
  | tables (elements : List (List (String × Item)))

/-- The fields of a table under construction. -/
abbrev Fields := List (String × Item)

namespace Fields

/-- Changes what stands under a key, or puts something there at the end. -/
def alter (key : String) (f : Option Item → Option Item) : Fields → Option Fields
  | [] => (f none).map fun item => [(key, item)]
  | (k, item) :: rest =>
    if k = key then (f (some item)).map fun item => (k, item) :: rest
    else (alter key f rest).map ((k, item) :: ·)

/-- Puts something under a key that is not taken. -/
def add (key : String) (item : Item) (fields : Fields) : Option Fields :=
  fields.alter key fun
    | none => some item
    | some _ => none

/-- Changes the table at the end of a path. Missing tables are made with the origin `made`; in a
list of tables the last one counts. -/
def within (made : Origin) (f : Origin → Fields → Option Fields) (origin : Origin) :
    List String → Fields → Option Fields
  | [], fields => f origin fields
  | key :: path, fields =>
    fields.alter key fun
      | none => (within made f made path []).map (.table made)
      | some (.value _) => none
      | some (.table inner fields) =>
        if made = .dotted ∧ inner = .header then none
        else (within made f inner path fields).map (.table inner)
      | some (.tables []) => none
      | some (.tables (last :: others)) =>
        (within made f .header path last).map fun last => .tables (last :: others)

/-- Puts a value under a key of the table that the keys before it lead to. -/
def addValue (path : List String) (key : String) (v : Toml) (fields : Fields) : Option Fields :=
  fields.within .dotted
    (fun origin fields =>
      if path ≠ [] ∧ origin ≠ .dotted then none else fields.add key (.value v))
    .header path

/-- Opens the table of a header. -/
def openTable (path : List String) (key : String) (fields : Fields) : Option Fields :=
  fields.within .implied
    (fun _ fields => fields.alter key fun
      | none => some (.table .header [])
      | some (.table .implied inner) => some (.table .header inner)
      | _ => none)
    .header path

/-- Appends a table to a list of tables. -/
def openElement (path : List String) (key : String) (fields : Fields) : Option Fields :=
  fields.within .implied
    (fun _ fields => fields.alter key fun
      | none => some (.tables [[]])
      | some (.tables elements) => some (.tables ([] :: elements))
      | _ => none)
    .header path

/-- Puts a value into the table that was opened at `place`. -/
def addValueAt (place : List String) (path : List String) (key : String) (v : Toml)
    (fields : Fields) : Option Fields :=
  fields.within .implied (fun _ fields => fields.addValue path key v) .header place

end Fields

mutual

/-- The finished value of an item. -/
def Item.finish : Item → Toml
  | .value v => v
  | .table _ fields => .table (finishFields fields)
  | .tables elements => .arr (finishElements elements []) 

/-- The finished fields of a table. -/
def finishFields : List (String × Item) → List (String × Toml)
  | [] => []
  | (key, item) :: rest => (key, item.finish) :: finishFields rest

/-- The finished tables of a list, put in front of those after them. -/
def finishElements : List (List (String × Item)) → List Toml → List Toml
  | [], after => after
  | fields :: rest, after => finishElements rest (.table (finishFields fields) :: after)

end

end SchemaEditor.Toml
