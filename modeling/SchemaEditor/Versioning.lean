import SchemaEditor.Model.Walk

/-!
# Versioning

How freely a library may be edited, whether a member is new to its version chain, and the one
policy that decides from these two answers whether a kind of change may happen. `Versioning` is
the pair of questions; `Versioning.chain` answers them from locks, status and version chains, and
`Versioning.fixed` from a table.
-/

namespace SchemaEditor

/-- How freely a library may be edited. -/
inductive Editability where
  | editable
  /-- New members are editable; members carried forward accept additions that break nothing. -/
  | minorOnly
  | readOnly
  deriving DecidableEq

namespace Editability

/-- All degrees. -/
def all : List Editability := [.editable, .minorOnly, .readOnly]

/-- The name of a degree. -/
def name : Editability → String
  | .editable => "editable"
  | .minorOnly => "minor_only"
  | .readOnly => "read_only"

/-- The degree with a name. -/
def ofName? (s : String) : Option Editability := all.find? (·.name == s)

/-- A degree in words. -/
def description : Editability → String
  | .editable => "editable"
  | .minorOnly => "minor-version changes only"
  | .readOnly => "read-only"

end Editability

/-- What a change means to those who use an earlier version. -/
inductive ChangeClass where
  | documentation
  /-- Something optional is added. -/
  | addition
  /-- Anything that may break a user. -/
  | structural
  deriving DecidableEq

namespace ChangeClass

/-- All classes. -/
def all : List ChangeClass := [.documentation, .addition, .structural]

/-- The name of a class. -/
def name : ChangeClass → String
  | .documentation => "documentation"
  | .addition => "addition"
  | .structural => "structural"

/-- The class with a name. -/
def ofName? (s : String) : Option ChangeClass := all.find? (·.name == s)

end ChangeClass

namespace Policy

/-- Whether a change may happen. Newness counts only where a library takes minor changes. -/
def permits (editability : Editability) (newToChain : Bool) (change : ChangeClass) : Bool :=
  match editability with
  | .editable => true
  | .readOnly => false
  | .minorOnly => newToChain || change = .documentation || change = .addition

/-- Whether a member counts as editable: whether any change may happen. -/
def isEditable (editability : Editability) (newToChain : Bool) : Bool :=
  permits editability newToChain .structural

end Policy

/-- The answers of a versioning service, from the model alone. -/
structure Versioning where
  editability : Model → LibraryId → Editability
  isNewToChain : Model → NodeId → Bool

namespace Versioning

/-- Whether a managed library is closed to a user: it has to be locked by this very user. -/
def lockedOut (user : Option String) (l : Library) : Bool :=
  l.managed && (user.isNone || l.lockedBy ≠ user)

/-- The editability of a library for a user. Only the last version of a chain may be edited at
all, and freely only if it opens its chain or is not a minor version. -/
def chainEditability (user : Option String) (m : Model) (library : LibraryId) : Editability :=
  match m.library? library with
  | none => .readOnly
  | some l =>
    if l.builtin || l.status ≠ .draft || lockedOut user l then .readOnly
    else
      let chain := m.chain library
      if chain.getLast? ≠ some library then .readOnly
      else if l.version.isMinor && 1 < chain.length then .minorOnly
      else .editable

/-- Whether no earlier version in the chain of a member's library has a member of its name. -/
def newInChain (m : Model) (member : NodeId) : Bool :=
  match m.node? member with
  | none => false
  | some n =>
    match m.library? n.library with
    | none => false
    | some l =>
      !(m.chain n.library).any fun id =>
        match m.library? id with
        | some earlier => earlier.version < l.version && (m.findMember? id n.name).isSome
        | none => false

/-- Versioning by locks, status and version chains, as seen by a user. -/
def chain (user : Option String) : Versioning :=
  ⟨chainEditability user, newInChain⟩

/-- Versioning by a table: the last entry for a library counts, and every member is new except
those listed as carried forward. -/
def fixed (default : Editability) (libraries : List (LibraryId × Editability))
    (carriedForward : List NodeId) : Versioning where
  editability _ library := (libraries.reverse.lookup library).getD default
  isNewToChain _ member := !carriedForward.contains member

end Versioning

end SchemaEditor
