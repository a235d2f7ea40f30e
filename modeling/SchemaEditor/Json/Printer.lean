import SchemaEditor.Json.Value
import SchemaEditor.Text.Hexadecimal

/-!
# Writing JSON

The compact form: no blanks, fields in the order of the object, only quotes, backslashes and
control characters escaped.
-/

namespace SchemaEditor.Json

/-- A character as it stands inside quotes. -/
def escape (c : Char) : List Char :=
  if c = '"' then ['\\', '"']
  else if c = '\\' then ['\\', '\\']
  else if c = '\x08' then ['\\', 'b']
  else if c = '\t' then ['\\', 't']
  else if c = '\n' then ['\\', 'n']
  else if c = '\x0c' then ['\\', 'f']
  else if c = '\r' then ['\\', 'r']
  else if c.toNat < 0x20 then
    ['\\', 'u', '0', '0', Text.Hexadecimal.lowerDigit (c.toNat / 16),
      Text.Hexadecimal.lowerDigit (c.toNat % 16)]
  else [c]

/-- A text in quotes. -/
def quoted (s : String) : String :=
  "\"" ++ String.ofList (s.toList.flatMap escape) ++ "\""

mutual

/-- The compact text of a value. An `ill` value has no text of its own and prints as `null`. -/
def print : Json → String
  | .null | .ill => "null"
  | .bool true => "true"
  | .bool false => "false"
  | .num spelling => spelling
  | .str s => quoted s
  | .arr items => "[" ++ printItems items ++ "]"
  | .obj fields => "\x7b" ++ printFields fields ++ "\x7d"

/-- The texts of items with commas between them. -/
def printItems : List Json → String
  | [] => ""
  | [j] => print j
  | j :: k :: js => print j ++ "," ++ printItems (k :: js)

/-- The texts of fields with commas between them. -/
def printFields : List (String × Json) → String
  | [] => ""
  | [(k, j)] => quoted k ++ ":" ++ print j
  | (k, j) :: f :: fs => quoted k ++ ":" ++ print j ++ "," ++ printFields (f :: fs)

end

end SchemaEditor.Json
