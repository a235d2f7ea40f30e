import SchemaEditor.Action.Manager
import SchemaEditor.Event.Bus
import SchemaEditor.Session.Validation

/-!
# Sessions

A session is a graph with an event bus and a validator. It chooses the manager of each subject from
the editability of its library, runs actions, and posts one event for each action that ran. If a
validator is set, the member around the subject is judged again afterwards, and a second event
follows when its recorded state changed. An action that is refused changes nothing.
-/

namespace SchemaEditor

/-- What an action that ran has done. -/
structure Outcome where
  action : Action
  subject : FacadeId
  created : Option FacadeId
  detached : List NodeId
  deriving DecidableEq

/-- An editing session. -/
structure Session where
  graph : Graph
  bus : Bus
  /-- Whether members carried forward into a minor version accept additions. -/
  minorVersionAdditions : Bool
  validator : Option Validator
  /-- The recorded states of members; a member without one is unknown. -/
  states : Std.TreeMap FacadeId ValidationState

namespace Session

/-- A session on a graph with an empty bus and without a validator. -/
def ofGraph (graph : Graph) : Session :=
  { graph, bus := .empty, minorVersionAdditions := true, validator := none, states := {} }

/-- The manager of the library around a facade. -/
def managerFor (s : Session) (subject : FacadeId) : Except Action.Error Manager :=
  match s.graph.editability subject with
  | .ok editability => .ok (.ofEditability editability s.minorVersionAdditions)
  | .error e => .error (.graph e)

/-- Why an action may not run, if so. -/
def check (s : Session) (action : Action) (subject : FacadeId) (param : Option Param) :
    Except Action.Error PUnit := do
  (← s.managerFor subject).check s.graph ⟨action, subject, param⟩

/-- Whether an action may run. -/
def isEnabled (s : Session) (action : Action) (subject : FacadeId) (param : Option Param) : Bool :=
  (s.check action subject param).isOk

/-- The refusal that an action would meet. -/
def denial? (s : Session) (action : Action) (subject : FacadeId) (param : Option Param) :
    Option Action.Error :=
  match s.check action subject param with
  | .ok _ => none
  | .error e => some e

/-- Every action with its check on a subject without a parameter. An action that only lacks its
parameter applies once it is given. -/
def available (s : Session) (subject : FacadeId) : List (Action × Except Action.Error PUnit) :=
  Action.all.map fun a => (a, s.check a subject none)

/-- The recorded state of a member. -/
def validation (s : Session) (member : FacadeId) : ValidationState :=
  (s.states[member]?).getD .unknown

/-- Posts an event. -/
def post (s : Session) (event : Event) : Session :=
  { s with bus := (s.bus.post event).2 }

/-- Records the state of a member and posts the event of its change, unless it is recorded so. -/
def recordState (s : Session) (member : FacadeId) (state : ValidationState) : Session :=
  if s.states[member]? = some state then s
  else
    let recorded := { s with states := s.states.insert member state }
    recorded.post
      (.change .validationChange member none (.validation state.isValid state.findings.length))

/-- Judges the member around a subject. -/
def revalidate (s : Session) (subject : FacadeId) : Session :=
  match s.validator with
  | none => s
  | some validator =>
    match Graph.owningMember subject s.graph with
    | .error _ graph => { s with graph }
    | .ok member graph => { s with graph }.recordState member (validator graph member)

/-- Checks an action and runs it. -/
def run (action : Action) (subject : FacadeId) (param : Option Param) :
    EStateM Action.Error Session Outcome := fun s =>
  match s.managerFor subject with
  | .error e => .error e s
  | .ok manager =>
    match manager.run ⟨action, subject, param⟩ s.graph with
    | .error e graph => .error e { s with graph }
    | .ok effect graph =>
      let posted := { s with graph }.post
        (.change effect.event subject effect.target effect.detail)
      .ok ⟨action, subject, effect.created, effect.detached⟩ (posted.revalidate subject)

end Session

end SchemaEditor
