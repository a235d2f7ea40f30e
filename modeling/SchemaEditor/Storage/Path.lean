import SchemaEditor.Text.Fields

/-!
# Paths

A path is a text with names between slashes. `names` are those names as they are walked; a place is
where a walk has led: names without `.` and without `..` after a name. A place that begins with the
name `/` is counted from the root, any other from the working directory.
-/

namespace SchemaEditor.Storage

/-- The names of a path in order. -/
def names (path : String) : List String := (Text.fields '/' path.toList).map String.ofList

/-- A path below another one. -/
def join (base rest : String) : String :=
  if base = "" ∨ base.toList.getLast? = some '/' then base ++ rest else base ++ "/" ++ rest

/-- Names without those at their end that lead nowhere, the empty ones and the points. The first one
always counts: if it is empty, it stands for the root, or the path is empty. -/
def trimmed : List String → List String
  | [] => []
  | first :: rest => first :: (rest.reverse.dropWhile fun name => name = "" ∨ name = ".").reverse

/-- The path of the directory that holds a file; empty if there is none, and for files in the working
directory. -/
def parent (path : String) : String :=
  match trimmed (trimmed (names path)).dropLast with
  | [""] => "/"
  | ns => "/".intercalate ns

/-- The name of the file at the end of a path, if it ends in one. -/
def fileName? (path : String) : Option String :=
  (trimmed (names path)).getLast?.filter fun name => name ≠ "" ∧ name ≠ "." ∧ name ≠ ".."

/-- A name without its last point and what follows it, unless it begins with that point. -/
def stem (name : String) : String :=
  match name.toList.reverse.dropWhile (· ≠ '.') with
  | [] | ['.'] => name
  | _ :: rest => String.ofList rest.reverse

/-- A path with another extension, and without what stands behind the name of the file. A path that
ends in no such name is left as it is; and from the end of a path the extension is taken off first,
so that of a name such as `..b` only `..` is left, which is no name of a file and takes none. -/
def withExtension (path extension : String) : String :=
  match fileName? path with
  | none => path
  | some name =>
    let ns := trimmed (names path)
    let last := if stem name = "." ∧ ns = names path then ".." else stem name ++ "." ++ extension
    "/".intercalate (ns.dropLast ++ [last])

/-- The most bytes that a name may have. -/
def nameLimit : Nat := 255

/-- The most bytes that a path may have. -/
def pathLimit : Nat := 4095

/-- A place as a list of names. -/
abbrev Place := List String

/-- The place where a path starts. -/
def start (path : String) : Place := if path.toList.head? = some '/' then ["/"] else []

/-- The place that one more name leads to. -/
def step (here : Place) (name : String) : Place :=
  if name = "" ∨ name = "." then here
  else if name = ".." then
    if here = ["/"] then here
    else if here = [] ∨ here.getLast? = some ".." then here ++ [".."]
    else here.dropLast
  else here ++ [name]

/-- Whether a place is one of those that are always directories: the root, the working directory,
and the directories around it. -/
def Place.isStanding (place : Place) : Bool := place = ["/"] ∨ place.all (· = "..")

/-- The text of a place. -/
def Place.text : Place → String
  | "/" :: rest => "/" ++ "/".intercalate rest
  | place => "/".intercalate place

end SchemaEditor.Storage
