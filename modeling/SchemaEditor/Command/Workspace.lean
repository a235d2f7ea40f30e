import SchemaEditor.Command.Failure
import SchemaEditor.Json.Parser
import SchemaEditor.Session.Basic
import SchemaEditor.Snapshot.Codec

/-!
# Workspaces

A workspace is a snapshot file opened for editing: a session on its model, set up as the
configuration says, and its table of keys. The file itself is never written.
-/

namespace SchemaEditor.Command

/-- What commands know about their surroundings. -/
structure Context where
  quiet : Bool
  user : Option String
  config : Config

/-- A snapshot opened for editing. -/
structure Workspace where
  keys : Snapshot.Keys
  session : Session

namespace Workspace

/-- The snapshot in a file. -/
def readSnapshot (t : Storage.Tree) (path : String) : Except Failure Snapshot :=
  match t.read path with
  | .error cause => .error (.readSnapshot path cause)
  | .ok text =>
    match (Json.parse text).bind Snapshot.ofJson with
    | none => .error (.parseSnapshot path)
    | some snapshot => .ok snapshot

/-- A bus with the history of the configuration and the locks of its view groups. -/
def busOf (config : Config) (groups : List ViewGroup) : Bus :=
  groups.foldl (fun b g => (b.lock g).2) (.ofHistory (.ofLimit config.effectiveHistoryLimit))

/-- A session on a model. -/
def sessionOn (ctx : Context) (m : Model) : Except Failure Session :=
  match Graph.ofModel m (.chain ctx.user), ctx.config.lockedGroups with
  | .error cause, _ => .error (.index cause)
  | _, .error cause => .error (.lockedGroups cause)
  | .ok graph, .ok groups =>
    .ok { Session.ofGraph graph with
      bus := busOf ctx.config groups
      minorVersionAdditions := ctx.config.minorVersionAdditions }

/-- Opens a snapshot file. -/
def open_ (ctx : Context) (t : Storage.Tree) (path : String) : Except Failure Workspace := do
  let snapshot ← readSnapshot t path
  match snapshot.load with
  | .error cause => throw (.loadSnapshot path cause)
  | .ok loaded => return ⟨loaded.keys, ← sessionOn ctx loaded.model⟩

/-- A step in a workspace. -/
abbrev Step := EStateM Failure Workspace

/-- Makes an edit of the graph; a refusal is told as `failure` says. -/
def edit {α : Type} (failure : Graph.Error → Failure) (e : Graph.Edit α) : Step α := fun w =>
  match e w.session.graph with
  | .ok a graph => .ok a { w with session := { w.session with graph } }
  | .error cause graph => .error (failure cause) { w with session := { w.session with graph } }

/-- Puts a query to the graph. -/
def ask {α : Type} (query : Graph → Except Graph.Error α) : Step α := edit .graph (Graph.ask query)

/-- The facade of the object with a key. -/
def facade (key : String) : Step FacadeId := fun w =>
  match w.keys.node key with
  | .error cause => .error (.unknownKey key cause) w
  | .ok node => edit (.uneditable key) (Graph.facadeFor node) w

/-- The key of a facade, if its node has one. -/
def keyOf? (w : Workspace) (f : FacadeId) : Option String :=
  match w.session.graph.nodeOf f with
  | .ok node => w.keys.keyOf? node
  | .error _ => none

end Workspace

/-- A facade as commands show it: its name, and what it is. -/
def describe (g : Graph) (f : FacadeId) : Except Graph.Error String := do
  return (← g.name f) ++ " [" ++ (← g.kind f).label ++ "]"

end SchemaEditor.Command
