import SchemaEditor.Toml.Fields
import SchemaEditor.Toml.Quoted
import SchemaEditor.Toml.Scalar

/-!
# The expressions of a document

A document is a sequence of lines; a line is blank, or holds a key with its value, or the header of
a table or of an element of a list of tables. Arrays and texts may stretch over several lines.
Readers give what they read with the rest of the text. Fuel bounds the number of steps; `2 * n + 2`
is enough for `n` characters, because every second step consumes one.
-/

namespace SchemaEditor.Toml

/-- A path of keys: those that lead to a table, and the key in it. -/
structure KeyPath where
  path : List String
  key : String
  deriving DecidableEq

/-- A line that says something. -/
inductive Expression where
  | entry (key : KeyPath) (value : Toml)
  | header (key : KeyPath)
  | elementHeader (key : KeyPath)

/-! ### Blanks -/

/-- Drops the blanks within a line. -/
def skipSpaces (cs : List Char) : List Char := cs.dropWhile isSpace

/-- Drops a comment. -/
def skipComment : List Char → List Char
  | '#' :: cs => cs.dropWhile isInline
  | cs => cs

/-- What follows a line, which may end with a comment and at the end of the document. -/
def lineEnd? (cs : List Char) : Option (List Char) :=
  match skipComment (skipSpaces cs) with
  | [] => some []
  | cs => newline? cs

/-- Drops blanks, comments and line ends, at most `fuel` lines. -/
def skipLines : Nat → List Char → List Char
  | 0, cs => cs
  | fuel + 1, cs =>
    match newline? (skipComment (skipSpaces cs)) with
    | some cs => skipLines fuel cs
    | none => skipSpaces cs

/-- Drops blanks, comments and line ends. -/
def skipBlanks (cs : List Char) : List Char := skipLines cs.length cs

/-! ### Keys -/

/-- The characters of keys without quotes. -/
def isBareKeyChar (c : Char) : Bool := c.isAlphanum || c == '_' || c == '-'

/-- One key. -/
def simpleKey? (cs : List Char) : Option (String × List Char) :=
  match cs.takeWhile isBareKeyChar with
  | [] => (Quoted.line? cs).map fun (key, rest) => (String.ofList key, rest)
  | key => some (String.ofList key, cs.dropWhile isBareKeyChar)

/-- At most `fuel` keys with points between them, blanks allowed around each. -/
def keys? : Nat → List Char → Option (List String × List Char)
  | 0, _ => none
  | fuel + 1, cs =>
    match simpleKey? (skipSpaces cs) with
    | none => none
    | some (key, rest) =>
      match skipSpaces rest with
      | '.' :: rest => (keys? fuel rest).map fun (keys, rest) => (key :: keys, rest)
      | rest => some ([key], rest)

/-- The path of keys in their order. -/
def KeyPath.ofList? : List String → Option KeyPath
  | [] => none
  | [key] => some ⟨[], key⟩
  | key :: keys => (ofList? keys).map fun p => ⟨key :: p.path, p.key⟩

/-- A path of keys. -/
def keyPath? (cs : List Char) : Option (KeyPath × List Char) :=
  match keys? nestingLimit cs with
  | some (keys, rest) => (KeyPath.ofList? keys).map fun p => (p, rest)
  | none => none

/-- A path of keys and the equals sign after it. -/
def assignment? (cs : List Char) : Option (KeyPath × List Char) :=
  match keyPath? cs with
  | some (p, '=' :: rest) => some (p, rest)
  | _ => none

/-! ### Values -/

mutual

/-- A value that nests at most `depth` arrays and inline tables. -/
def value? (depth : Nat) : Nat → List Char → Option (Toml × List Char)
  | 0, _ => none
  | fuel + 1, '[' :: cs => if depth = 0 then none else items? (depth - 1) fuel [] (skipBlanks cs)
  | fuel + 1, '{' :: cs =>
    if depth = 0 then none
    else
      match skipSpaces cs with
      | '}' :: rest => some (.table [], rest)
      | cs => pairs? (depth - 1) fuel [] cs
  | _ + 1, cs =>
    if cs.head? = some '"' ∨ cs.head? = some '\'' then
      (Quoted.read? cs).map fun (s, rest) => (.str (String.ofList s), rest)
    else Scalar.read? cs

/-- The items of an array after those read so far, which come last first. -/
def items? (depth : Nat) : Nat → List Toml → List Char → Option (Toml × List Char)
  | 0, _, _ => none
  | fuel + 1, items, cs =>
    match cs with
    | ']' :: rest => some (.arr items.reverse, rest)
    | cs =>
      match value? depth fuel cs with
      | none => none
      | some (v, rest) =>
        match skipBlanks rest with
        | ',' :: rest => items? depth fuel (v :: items) (skipBlanks rest)
        | ']' :: rest => some (.arr (v :: items).reverse, rest)
        | _ => none

/-- The pairs of an inline table after those read so far. -/
def pairs? (depth : Nat) : Nat → Fields → List Char → Option (Toml × List Char)
  | 0, _, _ => none
  | fuel + 1, fields, cs =>
    match assignment? cs with
    | none => none
    | some (p, rest) =>
      match value? depth fuel (skipSpaces rest) with
      | none => none
      | some (v, rest) =>
        match fields.addValue p.path p.key v, skipSpaces rest with
        | some fields, ',' :: rest => pairs? depth fuel fields rest
        | some fields, '}' :: rest => some (.table (finishFields fields), rest)
        | _, _ => none

end

/-- A value. -/
def readValue? (cs : List Char) : Option (Toml × List Char) :=
  value? nestingLimit (2 * cs.length + 2) cs

/-! ### Lines -/

/-- What follows a closing bracket and the end of its line. -/
def headerEnd? (cs : List Char) : Option (List Char) :=
  match cs with
  | ']' :: cs => lineEnd? cs
  | _ => none

/-- A line that says something, and what follows it. -/
def expression? : List Char → Option (Expression × List Char)
  | '[' :: '[' :: cs =>
    match keyPath? cs with
    | some (p, ']' :: rest) => (headerEnd? rest).map fun rest => (.elementHeader p, rest)
    | _ => none
  | '[' :: cs =>
    match keyPath? cs with
    | some (p, rest) => (headerEnd? rest).map fun rest => (.header p, rest)
    | none => none
  | cs =>
    match assignment? cs with
    | none => none
    | some (p, rest) =>
      match readValue? (skipSpaces rest) with
      | none => none
      | some (v, rest) => (lineEnd? rest).map fun rest => (.entry p v, rest)

/-- The lines of a document that say something, in at most `fuel` lines. -/
def expressionsIn : Nat → List Char → Option (List Expression)
  | 0, cs => if cs.isEmpty then some [] else none
  | fuel + 1, cs =>
    match skipSpaces cs with
    | [] => some []
    | cs =>
      match lineEnd? cs with
      | some rest => expressionsIn fuel rest
      | none =>
        match expression? cs with
        | some (e, rest) => (expressionsIn fuel rest).map (e :: ·)
        | none => none

/-- The lines of a document that say something. -/
def expressions? (cs : List Char) : Option (List Expression) := expressionsIn (cs.length + 1) cs

end SchemaEditor.Toml
