import SchemaEditor.Action.Basic
import SchemaEditor.Graph.Basic

/-!
# Refusals of actions

Why an action may not run. Refusals of the graph that speak about the form of an object or a pair
are stated again for the action; all others are passed on as they are.
-/

namespace SchemaEditor

/-- Why the policy of a library forbids an action. -/
inductive Prohibition where
  | readOnly
  | additionsDisabled
  | carriedForward
  deriving DecidableEq

/-- The wording of a prohibition. -/
def Prohibition.reason : Prohibition → String
  | .readOnly => "subject is read-only"
  | .additionsDisabled => "additions to carried-forward members are disabled"
  | .carriedForward => "member is carried forward from an earlier version"

namespace Action

/-- Why an action may not run. -/
inductive Error where
  | notEditable (action : Action) (subject : FacadeId) (editability : Editability)
  | notPermitted (action : Action) (subject : FacadeId) (reason : Prohibition)
  | mismatch (action : Action) (subject : FacadeId) (reason : Mismatch)
  | typeMismatch (action : Action) (subject provider : FacadeId)
  | missingParameter (action : Action)
  | graph (cause : Graph.Error)
  deriving DecidableEq

namespace Error

/-- The kind of a refusal in one word. -/
def name : Error → String
  | .notEditable .. => "NotEditable"
  | .notPermitted .. => "NotPermitted"
  | .mismatch .. => "StructuralMismatch"
  | .typeMismatch .. => "TypeMismatch"
  | .missingParameter _ => "MissingParameter"
  | .graph _ => "Internal"

/-- The wording of a refusal. -/
def message : Error → String
  | .notEditable action subject editability =>
    action.name ++ " on " ++ subject.text ++ ": library is " ++ editability.description
  | .notPermitted action subject reason =>
    action.name ++ " on " ++ subject.text ++ " is not permitted: " ++ reason.reason
  | .mismatch action subject reason =>
    action.name ++ " does not apply to " ++ subject.text ++ ": " ++ reason.reason
  | .typeMismatch action subject provider =>
    action.name ++ ": " ++ provider.text ++ " is not a valid type for " ++ subject.text
  | .missingParameter action => action.name ++ " requires " ++ action.profile.param.description
  | .graph cause => cause.message

/-- A refusal of the graph as a refusal of the action that met it. -/
def ofGraph (action : Action) (subject : FacadeId) : Graph.Error → Error
  | .typeMismatch _ provider => .typeMismatch action subject provider
  | .mismatch _ reason => .mismatch action subject reason
  | e => .graph e

end Error

end Action

end SchemaEditor
