import SchemaEditor.Toml.Expression

/-!
# Writing documents

Fields that are no tables come first, each on a line of its own; the tables follow, each under a
header after a blank line. An array of several items is written with one item on a line.
-/

namespace SchemaEditor.Toml

/-- A key, in quotes if it needs them. -/
def writeKey (key : String) : List Char :=
  if key.toList ≠ [] ∧ key.toList.all isBareKeyChar then key.toList
  else '"' :: (Quoted.escapeLine key.toList ++ ['"'])

/-- An integer. -/
def writeInteger (n : Int) : List Char :=
  if n < 0 then '-' :: Text.Decimal.digits n.natAbs else Text.Decimal.digits n.natAbs

/-- A truth value. -/
def writeBool : Bool → List Char
  | true => ['t', 'r', 'u', 'e']
  | false => ['f', 'a', 'l', 's', 'e']

/-- The indentation of the items of an array that is written over several lines. -/
def itemIndent : List Char := ['\n', ' ', ' ', ' ', ' ']

mutual

/-- A value. -/
def write : Toml → List Char
  | .str s => Quoted.write s.toList
  | .int n => writeInteger n
  | .bool b => writeBool b
  | .float spelling | .moment spelling => spelling.toList
  | .arr [] => ['[', ']']
  | .arr [v] => '[' :: (write v ++ [']'])
  | .arr (v :: w :: vs) => '[' :: (writeItem v ++ writeItem w ++ writeItems vs ++ ['\n', ']'])
  | .table [] => ['\x7b', '\x7d']
  | .table ((key, v) :: rest) =>
    ['\x7b', ' '] ++ writeKey key ++ [' ', '=', ' '] ++ write v ++ writePairs rest ++ [' ', '\x7d']

/-- An item of an array on its own line. -/
def writeItem (v : Toml) : List Char := itemIndent ++ write v ++ [',']

/-- Items of an array, each on its own line. -/
def writeItems : List Toml → List Char
  | [] => []
  | v :: vs => itemIndent ++ write v ++ [','] ++ writeItems vs

/-- Pairs of an inline table after its first one. -/
def writePairs : List (String × Toml) → List Char
  | [] => []
  | (key, v) :: rest =>
    [',', ' '] ++ writeKey key ++ [' ', '=', ' '] ++ write v ++ writePairs rest

end

/-- Fields that are no tables, each on its own line. -/
def writeEntries : List (String × Toml) → List Char
  | [] => []
  | (_, .table _) :: rest => writeEntries rest
  | (key, v) :: rest => writeKey key ++ [' ', '=', ' '] ++ write v ++ ['\n'] ++ writeEntries rest

/-- The fields of a table, each on its own line. -/
def writeFields : List (String × Toml) → List Char
  | [] => []
  | (key, v) :: rest => writeKey key ++ [' ', '=', ' '] ++ write v ++ ['\n'] ++ writeFields rest

/-- The tables among some fields, each under its header; a blank line parts a header from anything
before it. -/
def writeTables (first : Bool) : List (String × Toml) → List Char
  | [] => []
  | (key, .table fields) :: rest =>
    (if first then [] else ['\n']) ++ '[' :: (writeKey key ++ [']', '\n'] ++ writeFields fields ++
      writeTables false rest)
  | _ :: rest => writeTables first rest

/-- The text of a document. -/
def print (fields : List (String × Toml)) : String :=
  let entries := writeEntries fields
  String.ofList (entries ++ writeTables entries.isEmpty fields)

end SchemaEditor.Toml
