/-!
# TOML values

A TOML 1.0 value as a tree. Tables keep their fields in the order of the text, each key once.
Numbers with a fraction and moments of time keep their spelling.
-/

namespace SchemaEditor

/-- A TOML value. -/
inductive Toml where
  | str (s : String)
  | int (n : Int)
  | bool (b : Bool)
  /-- A number with a fraction or exponent, an infinity or no number, as it is spelled. -/
  | float (spelling : String)
  /-- A date, a time of day, or both, as it is spelled. -/
  | moment (spelling : String)
  | arr (items : List Toml)
  | table (fields : List (String × Toml))

namespace Toml

/-- How deep arrays and inline tables may be nested, and how many keys a path may have. -/
def nestingLimit : Nat := 79

/-- The integers of TOML are those of 64 bits with a sign. -/
def isIntegerRange (n : Int) : Bool :=
  Int64.minValue.toInt ≤ n && n ≤ Int64.maxValue.toInt

/-- The blanks within a line. -/
def isSpace (c : Char) : Bool := c == ' ' || c == '\t'

/-- The characters that may stand in a comment or for themselves in a text on one line. -/
def isInline (c : Char) : Bool := c == '\t' || (0x20 ≤ c.toNat && c.toNat != 0x7F)

/-- What follows the end of a line, if a line ends here. -/
def newline? : List Char → Option (List Char)
  | '\n' :: cs => some cs
  | '\r' :: '\n' :: cs => some cs
  | _ => none

end Toml

end SchemaEditor
