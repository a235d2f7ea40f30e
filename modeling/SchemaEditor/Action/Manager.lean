import SchemaEditor.Action.Handler

/-!
# Action managers

A manager is the policy for the actions on a library: everything, nothing, or what a minor version
allows. A request is checked in two stages, the policy of the manager first and the precondition
of the action second, and running it makes the same check before the edit.
-/

namespace SchemaEditor

/-- The policy for the actions on a library. -/
inductive Manager where
  | full
  | readOnly
  /-- Everything on new members; on members carried forward, documentation and perhaps additions. -/
  | minorVersionOnly (additions : Bool)
  deriving DecidableEq

namespace Manager

/-- The manager for a library. -/
def ofEditability (editability : Editability) (additions : Bool) : Manager :=
  match editability with
  | .editable => .full
  | .minorOnly => .minorVersionOnly additions
  | .readOnly => .readOnly

/-- The name of a manager. -/
def name : Manager → String
  | .full => "full"
  | .readOnly => "read-only"
  | .minorVersionOnly _ => "minor-version-only"

/-- A query of the policy; a refusal is passed on as it is. -/
def consult {α : Type} : Except Graph.Error α → Except Action.Error α
  | .ok a => .ok a
  | .error e => .error (.graph e)

/-- What the policy says about a member that is carried forward. -/
def checkCarried (additions : Bool) (r : Request) : Except Action.Error PUnit :=
  let change := r.action.changeClass r.param
  if change = .addition ∧ additions = false then
    .error (.notPermitted r.action r.subject .additionsDisabled)
  else if Policy.permits .minorOnly false change then .ok ⟨⟩
  else .error (.notPermitted r.action r.subject .carriedForward)

/-- What the policy says about a request. -/
def checkPolicy (manager : Manager) (g : Graph) (r : Request) : Except Action.Error PUnit := do
  match manager with
  | .readOnly => throw (.notPermitted r.action r.subject .readOnly)
  | .full =>
    let editability ← consult (g.editability r.subject)
    if editability ≠ .editable then throw (.notEditable r.action r.subject editability)
  | .minorVersionOnly additions =>
    let editability ← consult (g.editability r.subject)
    if editability = .readOnly then throw (.notEditable r.action r.subject editability)
    if !(← consult (g.isNewToChain r.subject)) then checkCarried additions r

/-- Why a request may not run, if so. -/
def check (manager : Manager) (g : Graph) (r : Request) : Except Action.Error PUnit := do
  manager.checkPolicy g r
  r.precondition g

/-- Whether a request may run. -/
def isEnabled (manager : Manager) (g : Graph) (r : Request) : Bool :=
  (manager.check g r).isOk

/-- Checks a request and makes its edit. -/
def run (manager : Manager) (r : Request) : Performance Effect := do
  let g ← get
  Request.take (manager.check g r)
  r.perform

end Manager

end SchemaEditor
