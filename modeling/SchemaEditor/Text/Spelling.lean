/-!
# Spellings of a name of several words

Names of alternatives are kept in lower case with underscores between the words. The two other
spellings in use, hyphens and capitalised words, derive from that one.
-/

namespace SchemaEditor.Text

/-- A name with hyphens between its words: `name_change` becomes `name-change`. -/
def hyphenated (name : String) : String :=
  String.ofList (name.toList.map fun c => if c = '_' then '-' else c)

/-- The characters of a name with each word capitalised; `atStart` before a word's first one. -/
def capitalizedChars (atStart : Bool) : List Char → List Char
  | [] => []
  | c :: cs =>
    if c = '_' then capitalizedChars true cs
    else (if atStart then c.toUpper else c) :: capitalizedChars false cs

/-- A name with its words capitalised and joined: `name_change` becomes `NameChange`. -/
def capitalized (name : String) : String :=
  String.ofList (capitalizedChars true name.toList)

end SchemaEditor.Text
