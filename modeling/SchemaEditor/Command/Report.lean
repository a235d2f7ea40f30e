import SchemaEditor.Command.Inspection
import SchemaEditor.Command.Line
import SchemaEditor.Command.Listing
import SchemaEditor.Event.Codec
import SchemaEditor.Json.Printer

/-!
# Reports on snapshots

What each command on a snapshot prints. A report holds the texts for the two output streams, one
for each line that is written, and the failure that ended the command, if one did.
-/

namespace SchemaEditor.Command

/-- What a command prints, and why it failed, if it did. -/
structure Report where
  out : List String
  err : List String
  failure : Option Failure

namespace Report

/-- A report that prints to the first stream. -/
def ofLines (lines : List String) : Report := ⟨lines, [], none⟩

/-- The report of a command that fails before it prints. -/
def ofResult : Except Failure Report → Report
  | .ok r => r
  | .error f => ⟨[], [], some f⟩

/-- The report of steps in a workspace. -/
def ofStep (step : Workspace.Step Report) (w : Workspace) : Except Failure Report :=
  match step w with
  | .ok r _ => .ok r
  | .error f _ => .error f

end Report

/-- The identity and time that an event is written down with. -/
structure Stamp where
  id : Uuid
  timestamp : Timestamp

/-! ### Tree, users and checks -/

/-- The tree of a snapshot. -/
def treeReport (w : Workspace) (noBuiltins inherited : Bool) : Report :=
  let (lines, error) := Listing.ofGraph noBuiltins inherited w.session.graph
  ⟨lines, [], error.map .graph⟩

/-- The line of a member that uses a provider: its key, if it has one, and what it is. -/
def userLine (user : FacadeId) : Workspace.Step String := do
  let label ← Workspace.ask fun g => describe g user
  match (← get).keyOf? user with
  | some key => return key ++ "\t" ++ label
  | none => return label

/-- The members that use a provider. -/
def whereUsedReport (quiet : Bool) (key : String) : Workspace.Step Report := do
  let provider ← Workspace.facade key
  let users ← Workspace.edit .graph (Graph.whereUsed provider)
  if users.isEmpty then
    return ⟨[], if quiet then [] else [key ++ " is not used"], none⟩
  else return .ofLines (← users.mapM userLine)

/-- A verdict on an action. An action that only lacks its parameter counts as enabled. -/
def verdict : Except Action.Error PUnit → String
  | .ok _ => "enabled"
  | .error (.missingParameter action) =>
    "enabled (needs " ++ action.profile.param.description ++ ")"
  | .error e => "refused: " ++ e.message

/-- The width of the column of action names. -/
def nameWidth : Nat := 18

/-- The line of an action with its verdict. -/
def actionLine (entry : Action × Except Action.Error PUnit) : String :=
  let name := entry.1.name.toList
  String.ofList (name ++ List.replicate (nameWidth - name.length) ' ') ++ " " ++ verdict entry.2

/-- The actions on an object with their verdicts. -/
def actionsReport (quiet : Bool) (key : String) : Workspace.Step Report := do
  let subject ← Workspace.facade key
  let session := (← get).session
  match session.managerFor subject with
  | .error e => throw (.policy e)
  | .ok manager =>
    let title ← if quiet then pure [] else do
      let label ← Workspace.ask fun g => describe g subject
      pure [label ++ " (manager: " ++ manager.name ++ ")"]
    return .ofLines (title ++ (session.available subject).map actionLine)

/-- The faults of a graph, or how many objects were checked. -/
def verifyReport (quiet : Bool) (w : Workspace) : Report :=
  match Inspection.allFacades w.session.graph with
  | .error e _ => ⟨[], [], some (.graph e)⟩
  | .ok seen graph =>
    match graph.verify with
    | [] =>
      .ofLines (if quiet then []
        else ["ok (" ++ Text.Decimal.ofNat seen.length ++ " objects checked)"])
    | faults => ⟨[], faults.map fun f => "  " ++ f.message, some (.inconsistent faults.length)⟩

/-! ### Running an action -/

/-- Gives a refusal of an argument as a failure. -/
def argument {α : Type} : Except ArgumentError α → Except Failure α
  | .ok a => .ok a
  | .error e => .error (.argument e)

/-- The parameter that a text stands for, as the action says. -/
def paramOfText (action : Action) (text : String) : Workspace.Step Param := do
  match action.profile.param with
  | .nothing => throw (.needlessParameter action)
  | .text => return .text text
  | .flag =>
    match Param.parseFlag text with
    | .ok b => return .flag b
    | .error e => throw (.argument e)
  | .property =>
    match PropertyKind.parse text with
    | .ok kind => return .property kind
    | .error e => throw (.argument e)
  | .provider => return .provider (← Workspace.facade text)

/-- The parameter, if one is given. -/
def paramOf? (action : Action) : Option String → Workspace.Step (Option Param)
  | none => return none
  | some text => return some (← paramOfText action text)

/-- Subscribes to all events. -/
def subscribe : Workspace.Step SubscriptionId := fun w =>
  let (id, bus) := w.session.bus.subscribe [] none
  .ok id { w with session := { w.session with bus } }

/-- Runs an action in the session. -/
def perform (action : Action) (key : String) (subject : FacadeId) (param : Option Param) :
    Workspace.Step Outcome := fun w =>
  match Session.run action subject param w.session with
  | .ok outcome session => .ok outcome { w with session }
  | .error e session => .error (.refused action key e) { w with session }

/-- What an action did, in words. -/
def summary (outcome : Outcome) : Workspace.Step String := do
  let subject ← Workspace.ask fun g => describe g outcome.subject
  let created ← match outcome.created with
    | none => pure ""
    | some f => pure ("; created " ++ (← Workspace.ask fun g => describe g f))
  let detached := if outcome.detached.isEmpty then ""
    else "; detached " ++ Text.Decimal.ofNat outcome.detached.length ++ " node(s)"
  return outcome.action.name ++ " applied to " ++ subject ++ created ++ detached

/-- The line of an event. -/
def eventLine (event : Event) (stamp : Stamp) : String :=
  (EventRecord.toJson ⟨stamp.id, event, stamp.timestamp⟩).print

/-- Runs an action and gives the events that it published; the event at position `i` is written
down with `stamps i`. -/
def runReport (quiet : Bool) (stamps : Nat → Stamp) (action : Action) (key : String)
    (text : Option String) : Workspace.Step Report := do
  let subject ← Workspace.facade key
  let param ← paramOf? action text
  let subscription ← subscribe
  let outcome ← perform action key subject param
  let summary ← if quiet then pure [] else pure [← summary outcome]
  let events := (← get).session.bus.received subscription
  return ⟨events.zipIdx.map fun (e, i) => eventLine e (stamps i), summary, none⟩

end SchemaEditor.Command
