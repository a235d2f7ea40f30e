import SchemaEditor.Storage.Path
import SchemaEditor.Text.Keyed

/-!
# Trees of files

A tree holds the texts of files and the directories around them. The working directory, the
directories around it and the root are always there. Each name of a path but the last has to lead
to a directory; the refusals are those of a file system, with its wording. A change that is refused
keeps the steps already made.
-/

namespace SchemaEditor.Storage

/-- Why a file cannot be reached or changed. -/
inductive Fault where
  | missing
  | exists
  | notADirectory
  | isADirectory
  | nameTooLong
  deriving DecidableEq

/-- The wording of a refusal. -/
def Fault.message : Fault → String
  | .missing => "No such file or directory (os error 2)"
  | .exists => "File exists (os error 17)"
  | .notADirectory => "Not a directory (os error 20)"
  | .isADirectory => "Is a directory (os error 21)"
  | .nameTooLong => "File name too long (os error 36)"

/-- What stands at a place. -/
inductive Entry where
  | file (text : String)
  | directory
  deriving DecidableEq

/-- The files and directories, under the texts of their places. -/
structure Tree where
  entries : Text.Keyed Entry

namespace Tree

/-- The tree without files. -/
def empty : Tree := ⟨.empty⟩

/-- What stands at a place. -/
def entry? (t : Tree) (place : Place) : Option Entry :=
  if place.isStanding then some .directory else t.entries.get? place.text

/-- Why a name cannot be looked up at a place, if it cannot. -/
def lookupFault? (t : Tree) (place : Place) (name : String) : Option Fault :=
  match t.entry? place with
  | some .directory => if nameLimit < name.utf8ByteSize then some .nameTooLong else none
  | some (.file _) => some .notADirectory
  | none => some .missing

/-- The place that names lead to from a place. -/
def walk (t : Tree) (here : Place) : List String → Except Fault Place
  | [] => .ok here
  | name :: rest =>
    match t.lookupFault? here name with
    | none => t.walk (step here name) rest
    | some e => .error e

/-- The place that a path leads to; something need not stand there. -/
def locate (t : Tree) (path : String) : Except Fault Place :=
  if path = "" then .error .missing
  else if pathLimit < path.utf8ByteSize then .error .nameTooLong
  else t.walk (start path) (names path)

/-- What stands at the end of a path. -/
def find (t : Tree) (path : String) : Except Fault Entry := do
  match t.entry? (← t.locate path) with
  | some entry => return entry
  | none => throw .missing

/-- Whether something stands at the end of a path. -/
def contains (t : Tree) (path : String) : Bool := (t.find path).isOk

/-- The text of a file. -/
def read (t : Tree) (path : String) : Except Fault String := do
  match ← t.find path with
  | .file text => return text
  | .directory => throw .isADirectory

/-- Puts something at a place. -/
def put (t : Tree) (place : Place) (entry : Entry) : Tree :=
  ⟨t.entries.insert place.text entry⟩

/-- Takes away what stands at a place. -/
def remove (t : Tree) (place : Place) : Tree := ⟨t.entries.erase place.text⟩

/-- The files with their texts, in the order of their places. -/
def files (t : Tree) : List (String × String) :=
  t.entries.entries.filterMap fun
    | (place, .file text) => some (place, text)
    | (_, .directory) => none

/-- The files below the working directory. -/
def localFiles (t : Tree) : List (String × String) :=
  t.files.filter fun (path, _) => start path = [] ∧ (names path).head? ≠ some ".."

/-! ### Changes -/

/-- A change of a tree. -/
abbrev Change := EStateM Fault Tree

/-- Makes the directories that names lead through, as far as they are missing. -/
def makeDirectories (here : Place) : List String → Change PUnit
  | [] => return ⟨⟩
  | name :: rest => fun t =>
    let next := step here name
    if nameLimit < name.utf8ByteSize then .error .nameTooLong t
    else
      match t.entry? next with
      | some .directory => makeDirectories next rest t
      | some (.file _) => .error (if rest = [] then .exists else .notADirectory) t
      | none => makeDirectories next rest (t.put next .directory)

/-- Makes a directory with all directories around it. -/
def createDirectories (path : String) : Change PUnit :=
  if path = "" then return ⟨⟩
  else if pathLimit < path.utf8ByteSize then throw .nameTooLong
  else makeDirectories (start path) (names path)

/-- Writes a file, in place of the text it had. -/
def write (path text : String) : Change PUnit := fun t =>
  match t.locate path with
  | .error e => .error e t
  | .ok place =>
    match t.entry? place with
    | some .directory => .error .isADirectory t
    | _ => .ok ⟨⟩ (t.put place (.file text))

/-- Moves a file onto another one, which it replaces. -/
def rename (source target : String) : Change PUnit := fun t =>
  match t.locate source, t.locate target with
  | .error e, _ | _, .error e => .error e t
  | .ok old, .ok new =>
    match t.entry? old, t.entry? new with
    | none, _ => .error .missing t
    | _, some .directory => .error .isADirectory t
    | some entry, _ => .ok ⟨⟩ ((t.remove old).put new entry)

/-- The tree with a file that is made together with the directories around it. -/
def withFile (t : Tree) (path text : String) : Tree :=
  match (do createDirectories (parent path); write path text : Change PUnit) t with
  | .ok _ t => t
  | .error _ t => t

end Tree

end SchemaEditor.Storage
