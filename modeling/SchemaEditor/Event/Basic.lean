import SchemaEditor.Id
import SchemaEditor.Text.Spelling
import SchemaEditor.ViewGroup

/-!
# Events

What happened, to which facade: changes of values and structure, a changed validation, a navigation
or a lock. An event carries a detail that depends on its kind. The identity and time of a published
event are added where it is written down.
-/

namespace SchemaEditor

/-- Categories of events. -/
inductive EventKind where
  | nameChange
  | documentationChange
  | mandatoryChange
  | typeChange
  | childAdded
  | childDeleted
  | validationChange
  | navigation
  | lock
  deriving DecidableEq

namespace EventKind

/-- All kinds, in their order. -/
def all : List EventKind :=
  [.nameChange, .documentationChange, .mandatoryChange, .typeChange, .childAdded, .childDeleted,
    .validationChange, .navigation, .lock]

/-- The name of a kind. -/
def name : EventKind → String
  | .nameChange => "name_change"
  | .documentationChange => "documentation_change"
  | .mandatoryChange => "mandatory_change"
  | .typeChange => "type_change"
  | .childAdded => "child_added"
  | .childDeleted => "child_deleted"
  | .validationChange => "validation_change"
  | .navigation => "navigation"
  | .lock => "lock"

/-- The kind with a name. -/
def ofName? (s : String) : Option EventKind := all.find? (·.name == s)

/-- The name of a kind with hyphens. -/
def hyphenated (k : EventKind) : String := Text.hyphenated k.name

/-- The kind with a hyphenated name. -/
def ofHyphenated? (s : String) : Option EventKind := all.find? (·.hyphenated == s)

/-- Whether an event of this kind says that the shape of the model changed. -/
def isStructural : EventKind → Bool
  | .typeChange | .childAdded | .childDeleted => true
  | _ => false

/-- Whether events of this kind reach the subscribers of a locked view group. -/
def passesLocks (k : EventKind) : Bool := k = .lock || k.isStructural

@[simp] theorem ofName?_name (k : EventKind) : ofName? k.name = some k := by
  cases k <;> decide

end EventKind

/-- What an event tells besides its subject and target. -/
inductive EventDetail where
  | nothing
  /-- The lock of a view group was engaged or released. -/
  | lock (group : ViewGroup) (engaged : Bool)
  /-- A name before and after. -/
  | renamed (before after : String)
  /-- Whether a member is now valid, and how many findings it has. -/
  | validation (valid : Bool) (findings : Nat)
  deriving DecidableEq

/-- An event. -/
structure Event where
  kind : EventKind
  /-- What the event is about. -/
  subject : Option FacadeId
  /-- Where to navigate, or what an action added or assigned. -/
  target : Option FacadeId
  detail : EventDetail
  /-- Whether the navigation came from going back or forward. -/
  replayed : Bool
  deriving DecidableEq

namespace Event

/-- An event of a kind with nothing else. -/
def ofKind (kind : EventKind) : Event :=
  { kind, subject := none, target := none, detail := .nothing, replayed := false }

/-- A change of a facade. -/
def change (kind : EventKind) (subject : FacadeId) (target : Option FacadeId)
    (detail : EventDetail) : Event :=
  { kind, subject := some subject, target, detail, replayed := false }

/-- A navigation to a facade. -/
def navigation (target : FacadeId) (replayed : Bool) : Event :=
  { ofKind .navigation with target := some target, replayed }

/-- The announcement that a lock was engaged or released. -/
def lock (group : ViewGroup) (engaged : Bool) : Event :=
  { ofKind .lock with detail := .lock group engaged }

end Event

end SchemaEditor
