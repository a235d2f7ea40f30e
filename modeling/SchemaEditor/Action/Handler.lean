import SchemaEditor.Action.Error
import SchemaEditor.Event.Basic
import SchemaEditor.Graph.Structure
import SchemaEditor.Graph.Types

/-!
# What actions require and do

`precondition` is what an action asks of its subject and its parameter, the subject first;
`perform` is the edit it makes, and `Effect` what that edit says about itself. The two are stated
apart: that an edit is never refused once its precondition holds is a theorem about them.
-/

namespace SchemaEditor

/-- An action on a subject, perhaps with a parameter. -/
structure Request where
  action : Action
  subject : FacadeId
  param : Option Param
  deriving DecidableEq

/-- What a performed action changed, in the terms of its event. -/
structure Effect where
  event : EventKind
  target : Option FacadeId
  /-- The facade that the action created. -/
  created : Option FacadeId
  /-- The nodes that the action detached. -/
  detached : List NodeId
  detail : EventDetail
  deriving DecidableEq

namespace Effect

/-- A change without target, new facade and detached nodes. -/
def change (event : EventKind) : Effect :=
  { event, target := none, created := none, detached := [], detail := .nothing }

/-- A new facade. -/
def addition (facade : FacadeId) : Effect :=
  { change .childAdded with target := some facade, created := some facade }

/-- Deleted nodes. -/
def deletion (nodes : List NodeId) : Effect :=
  { change .childDeleted with detached := nodes }

end Effect

namespace Request

/-- The refusal of a subject or a parameter of the wrong form. -/
def mismatch (r : Request) (reason : Mismatch) : Action.Error :=
  .mismatch r.action r.subject reason

/-- A query of the graph on behalf of a request. -/
def query {α : Type} (r : Request) : Except Graph.Error α → Except Action.Error α
  | .ok a => .ok a
  | .error e => .error (.ofGraph r.action r.subject e)

/-- Refuses unless a condition holds. -/
def demand (r : Request) (condition : Bool) (otherwise : Mismatch) : Except Action.Error PUnit :=
  if condition then .ok ⟨⟩ else .error (r.mismatch otherwise)

/-- The text given as parameter. -/
def text (r : Request) : Except Action.Error String :=
  match r.param with
  | some (.text s) => .ok s
  | _ => .error (.missingParameter r.action)

/-- The text given as parameter, trimmed and not empty. -/
def filledText (r : Request) : Except Action.Error String := do
  let text := Text.trim (← r.text)
  r.demand (text ≠ "") .emptyText
  return text

/-- The truth value given as parameter. -/
def flag (r : Request) : Except Action.Error Bool :=
  match r.param with
  | some (.flag b) => .ok b
  | _ => .error (.missingParameter r.action)

/-- The kind of property given as parameter. -/
def property (r : Request) : Except Action.Error PropertyKind :=
  match r.param with
  | some (.property kind) => .ok kind
  | _ => .error (.missingParameter r.action)

/-- The provider given as parameter. -/
def provider (r : Request) : Except Action.Error FacadeId :=
  match r.param with
  | some (.provider facade) => .ok facade
  | _ => .error (.missingParameter r.action)

/-- The subject has no child with a name. -/
def nameIsFree (r : Request) (g : Graph) (name : String) : Except Action.Error PUnit := do
  let taken ← r.query (g.hasChildNamed r.subject name)
  r.demand (!taken) (.nameTaken name)

/-- What an action asks of an attached subject and of its parameter. -/
def requirement (r : Request) (g : Graph) : Except Action.Error PUnit := do
  match r.action with
  | .setName =>
    let _ ← r.query (g.givenNameRule r.subject)
    let _ ← r.filledText
  | .setDescription | .setExample | .setDeprecation =>
    let _ ← r.text
  | .setMandatory =>
    r.demand (← r.query (g.kind r.subject)).isProperty .notAProperty
    let _ ← r.flag
  | .assignType =>
    r.demand (← r.query (g.kind r.subject)).assignable?.isSome .takesNoType
    r.query (g.canAssign r.subject (← r.provider))
  | .clearType =>
    r.demand (← r.query (g.kind r.subject)).assignable?.isSome .takesNoType
    let node ← r.query (g.nodeOf r.subject)
    r.demand (g.usage.provider? ⟨node, .type⟩).isSome .hasNoType
  | .setBaseType =>
    r.demand (← r.query (g.kind r.subject)).supportsBase .cannotExtend
    r.query (g.canExtend r.subject (← r.provider))
  | .clearBaseType =>
    let node ← r.query (g.nodeOf r.subject)
    r.demand (g.usage.provider? ⟨node, .base⟩).isSome .extendsNothing
  | .addProperty =>
    r.demand (← r.query (g.propertyContainer? r.subject)).isSome .noProperties
    let kind ← r.property
    r.demand (← r.query (g.acceptsProperty r.subject kind)) (.noPropertiesOf kind)
  | .deleteProperty =>
    r.demand (← r.query (g.kind r.subject)).isProperty .notAProperty
  | .addAlias =>
    r.demand (← r.query (g.kind r.subject)).supportsAliases .noAliases
    r.nameIsFree g (Text.upperFirst (← r.filledText))
  | .deleteAlias =>
    r.demand ((← r.query (g.kind r.subject)) = .aliasName) .notAnAlias
  | .addEnumValue =>
    r.demand (← r.query (g.kind r.subject)).isEnumeration .notAnEnumeration
    r.nameIsFree g (← r.filledText)
  | .deleteEnumValue =>
    r.demand ((← r.query (g.kind r.subject)) = .valueLiteral) .notAnEnumerationValue

/-- What an action asks before it is performed: a subject that is attached, and its requirement. -/
def precondition (r : Request) (g : Graph) : Except Action.Error PUnit := do
  r.demand (← r.query (g.isAttached r.subject)) .deleted
  r.requirement g

end Request

/-- An action under way: it gives a value or a refusal, and in both cases a graph. -/
abbrev Performance := EStateM Action.Error Graph

namespace Request

/-- Takes a parameter. -/
def take {α : Type} (argument : Except Action.Error α) : Performance α := fun g =>
  match argument with
  | .ok a => .ok a g
  | .error e => .error e g

/-- Makes an edit of the graph. -/
def edit {α : Type} (r : Request) (e : Graph.Edit α) : Performance α := fun g =>
  match e g with
  | .ok a g => .ok a g
  | .error e g => .error (.ofGraph r.action r.subject e) g

/-- Makes the edit of an action. -/
def perform (r : Request) : Performance Effect := do
  match r.action with
  | .setName =>
    let before ← r.edit (Graph.ask (·.name r.subject))
    let after ← r.edit (Graph.setName r.subject (← take r.filledText))
    return { Effect.change .nameChange with detail := .renamed before after }
  | .setDescription =>
    r.edit (Graph.setDocumentation r.subject .description (← take r.text))
    return .change .documentationChange
  | .setExample =>
    r.edit (Graph.setDocumentation r.subject .sample (← take r.text))
    return .change .documentationChange
  | .setDeprecation =>
    r.edit (Graph.setDocumentation r.subject .deprecation (← take r.text))
    return .change .documentationChange
  | .setMandatory =>
    r.edit (Graph.setMandatory r.subject (← take r.flag))
    return .change .mandatoryChange
  | .assignType =>
    let provider ← take r.provider
    let _ ← r.edit (Graph.assignType r.subject provider)
    return { Effect.change .typeChange with target := some provider }
  | .clearType =>
    let _ ← r.edit (Graph.unassignType r.subject)
    return .change .typeChange
  | .setBaseType =>
    let base ← take r.provider
    let _ ← r.edit (Graph.setBaseType r.subject base)
    return { Effect.change .typeChange with target := some base }
  | .clearBaseType =>
    let _ ← r.edit (Graph.clearBaseType r.subject)
    return .change .typeChange
  | .addProperty =>
    return .addition (← r.edit (Graph.addProperty r.subject (← take r.property) none))
  | .addAlias =>
    return .addition (← r.edit (Graph.addAlias r.subject (← take r.filledText)))
  | .addEnumValue =>
    return .addition (← r.edit (Graph.addEnumValue r.subject (← take r.filledText)))
  | .deleteProperty | .deleteAlias | .deleteEnumValue =>
    return .deletion (← r.edit (Graph.delete r.subject))

end Request

end SchemaEditor
