import Std.Data.TreeMap
import SchemaEditor.Facade.Kind
import SchemaEditor.Id

/-!
# The registry of facades

The records of the facades that were handed out, in order, and a map from nodes to their facades. A
node is registered at most once, and a facade is never taken back: the id of a facade is its
position, so equal ids mean the same object.
-/

namespace SchemaEditor.Facade

/-- What a facade stands for. -/
structure Entry where
  node : NodeId
  kind : Kind
  deriving DecidableEq

/-- A facade that was handed out. -/
structure Record where
  id : FacadeId
  entry : Entry

/-- The facades that were handed out, and where each node finds its own. -/
structure Registry where
  /-- The facades in the order in which they were handed out. -/
  records : Array Record
  /-- The facade of each node that has one. -/
  byNode : Std.TreeMap NodeId FacadeId

namespace Registry

/-- The registry without facades. -/
def empty : Registry := ⟨#[], {}⟩

/-- The facade of a node. -/
def get? (r : Registry) (node : NodeId) : Option FacadeId := r.byNode[node]?

/-- What a facade stands for. -/
def entry? (r : Registry) (id : FacadeId) : Option Entry := r.records[id.index]?.map (·.entry)

/-- The number of facades. -/
def size (r : Registry) : Nat := r.records.size

/-- The facades with what they stand for, in order. -/
def toList (r : Registry) : List (FacadeId × Entry) :=
  r.records.toList.map fun record => (record.id, record.entry)

/-- Hands out a new facade. -/
def insert (r : Registry) (node : NodeId) (kind : Kind) : FacadeId × Registry :=
  let id : FacadeId := ⟨r.records.size⟩
  (id, ⟨r.records.push ⟨id, ⟨node, kind⟩⟩, r.byNode.insert node id⟩)

/-- The facade of a node: the one it has, or else a new one. -/
def register (r : Registry) (node : NodeId) (kind : Kind) : FacadeId × Registry :=
  match r.get? node with
  | some id => (id, r)
  | none => r.insert node kind

/-- The facade of a node: the one it has, or else a new one of the kind that `kind?` gives. Without
a kind there is no facade. -/
def getOrCreate (r : Registry) (node : NodeId) (kind? : Option Kind) :
    Option (FacadeId × Registry) :=
  match r.get? node with
  | some id => some (id, r)
  | none => kind?.map (r.insert node)

/-- A new facade for a node; the facade the node already has is the refusal. -/
def tryRegister (r : Registry) (node : NodeId) (kind : Kind) :
    Except FacadeId (FacadeId × Registry) :=
  match r.get? node with
  | some existing => .error existing
  | none => .ok (r.insert node kind)

end Registry

end SchemaEditor.Facade
