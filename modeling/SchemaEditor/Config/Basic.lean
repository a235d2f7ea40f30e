import SchemaEditor.Event.History
import SchemaEditor.Text.Blank
import SchemaEditor.ViewGroup

/-!
# Configuration

The settings of a user, all of them optional. Asking for a setting gives its default where none is
set. Not every configuration is valid: a limit of zero, blank texts and ill-formed ids of view
groups are refused, and the first of them in that order is reported.
-/

namespace SchemaEditor

/-- Settings of actions. -/
structure ActionSettings where
  /-- Whether members carried forward into a minor version accept additions. -/
  minorVersionAdditions : Option Bool
  deriving DecidableEq

/-- Settings of view groups. -/
structure ViewGroupSettings where
  /-- The ids of the view groups that are locked from the start. -/
  locked : List String
  deriving DecidableEq

/-- A configuration. -/
structure Config where
  user : Option String
  /-- How many targets the navigation history keeps. -/
  historyLimit : Option Nat
  logFilter : Option String
  actions : Option ActionSettings
  viewGroups : Option ViewGroupSettings
  deriving DecidableEq

namespace Config

/-- The configuration that sets nothing. -/
def empty : Config := ⟨none, none, none, none, none⟩

/-! ### Validity -/

/-- Why a configuration is refused. -/
inductive Fault where
  | zeroHistoryLimit
  /-- The limit is too large to be written down. -/
  | largeHistoryLimit
  | emptyLogFilter
  | emptyUser
  | viewGroup (id : String) (cause : ViewGroup.Fault)
  deriving DecidableEq

/-- The wording of a refusal. -/
def Fault.message : Fault → String
  | .zeroHistoryLimit => "invalid config value: history_limit must be at least 1"
  | .largeHistoryLimit => "invalid config value: out-of-range value for u64 type"
  | .emptyLogFilter => "invalid config value: log_filter cannot be empty"
  | .emptyUser => "invalid config value: user cannot be empty"
  | .viewGroup id cause =>
    "invalid config value: invalid view group '" ++ id ++ "': " ++ cause.message

/-- Whether a text is there and blank. -/
def isBlank (s : Option String) : Bool := s.any fun s => Text.trim s == ""

/-- A view group by its id. -/
def viewGroup (id : String) : Except Fault ViewGroup :=
  match ViewGroup.parse id with
  | .ok g => .ok g
  | .error cause => .error (.viewGroup id cause)

/-- The view groups that are locked from the start. -/
def lockedGroups (c : Config) : Except Fault (List ViewGroup) :=
  match c.viewGroups with
  | some settings => settings.locked.mapM viewGroup
  | none => .ok []

/-- Why a configuration is not valid, if so. -/
def validate (c : Config) : Except Fault Unit :=
  if c.historyLimit = some 0 then .error .zeroHistoryLimit
  else if isBlank c.logFilter then .error .emptyLogFilter
  else if isBlank c.user then .error .emptyUser
  else c.lockedGroups.map fun _ => ()

/-! ### Settings with their defaults -/

/-- The log filter unless one is set. -/
def defaultLogFilter : String := "warn"

/-- The limit of the navigation history. -/
def effectiveHistoryLimit (c : Config) : Nat := c.historyLimit.getD History.defaultLimit

/-- The log filter. -/
def effectiveLogFilter (c : Config) : String := c.logFilter.getD defaultLogFilter

/-- Whether members carried forward into a minor version accept additions. -/
def minorVersionAdditions (c : Config) : Bool :=
  (c.actions.bind (·.minorVersionAdditions)).getD true

end Config

end SchemaEditor
