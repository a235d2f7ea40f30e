import Std.Data.TreeMap
import SchemaEditor.Model.Walk

/-!
# The where-used index

Which nodes refer to which: a map from every reference that is set to the node it points at, and a
map back from every node that is pointed at to the references, each with the member that contains
its owner. References of an indexed model are written through `assign` and `unassign`, which
change the model and both maps together; `seed` builds the index of a model from nothing.
-/

namespace SchemaEditor.Usage

/-- Which reference of a node is meant. -/
inductive Slot where
  | type
  | base
  deriving DecidableEq

namespace Slot

/-- The position of a slot: types come before bases. -/
def rank : Slot → Nat
  | .type => 0
  | .base => 1

/-- The name of a slot. -/
def name : Slot → String
  | .type => "type"
  | .base => "base"

/-- The reference of a node in a slot. -/
def reference (s : Slot) (n : Node) : Option NodeId :=
  match s with
  | .type => n.typeRef
  | .base => n.base

/-- Writes the reference of a node in a slot. -/
def write (s : Slot) (m : Model) (user : NodeId) (provider : Option NodeId) :
    Except Model.Error Model :=
  match s with
  | .type => m.setTypeRef user provider
  | .base => m.setBase user provider

end Slot

/-- A reference: the node that has it, and in which slot. -/
structure Reference where
  user : NodeId
  slot : Slot
  deriving DecidableEq

namespace Reference

/-- How references order: by node, then by slot. -/
def cmp (a b : Reference) : Ordering :=
  (compare a.user.index b.user.index).then (compare a.slot.rank b.slot.rank)

end Reference

/-- The references to one node, each with the member that contains its user. -/
abbrev Users := Std.TreeMap Reference NodeId Reference.cmp

/-- The two maps of the index. -/
structure Index where
  users : Std.TreeMap NodeId Users
  assigned : Std.TreeMap Reference NodeId Reference.cmp

namespace Index

/-- The index without references. -/
def empty : Index := ⟨{}, {}⟩

/-- The node that a reference points at. -/
def provider? (x : Index) (r : Reference) : Option NodeId := x.assigned[r]?

/-- The references to a node. -/
def bucket (x : Index) (provider : NodeId) : Users := (x.users[provider]?).getD {}

/-- The references to a node, in order. -/
def usersOf (x : Index) (provider : NodeId) : List Reference := (x.bucket provider).keys

/-- The members that contain a user of a node, in order and each once. -/
def whereUsed (x : Index) (provider : NodeId) : List NodeId :=
  (Std.TreeMap.ofList ((x.bucket provider).values.map fun member => (member, ())) compare).keys

/-- The nodes that some reference points at, in order. -/
def providers (x : Index) : List NodeId := x.users.keys

/-- Records a reference that is not recorded yet. -/
def record (x : Index) (r : Reference) (provider member : NodeId) : Index where
  users := x.users.insert provider ((x.bucket provider).insert r member)
  assigned := x.assigned.insert r provider

/-- Forgets a reference; a node without references is forgotten with its last one. -/
def forget (x : Index) (r : Reference) : Index :=
  match x.provider? r with
  | none => x
  | some provider =>
    let rest := (x.bucket provider).erase r
    { users := if rest.isEmpty then x.users.erase provider else x.users.insert provider rest
      assigned := x.assigned.erase r }

/-- Records the reference in one slot of a node, if it is set. -/
def recordSlot (x : Index) (id : NodeId) (n : Node) (member : NodeId) (slot : Slot) : Index :=
  match slot.reference n with
  | some provider => x.record ⟨id, slot⟩ provider member
  | none => x

/-- Records the references of one node if it is attached. -/
def recordNode (m : Model) (x : Index) (id : NodeId) : Except Model.Error Index := do
  let n ← m.node id
  if n.attached then
    let member ← m.memberOf id
    return (x.recordSlot id n member .type).recordSlot id n member .base
  else return x

/-- The index of all references on attached nodes. -/
def seed (m : Model) : Except Model.Error Index :=
  m.nodeIds.foldlM (recordNode m) empty

/-- Points a reference at a node, off the one it pointed at, which is given back. -/
def assign (x : Index) (m : Model) (r : Reference) (provider : NodeId) :
    Except Model.Error (Option NodeId × Model × Index) := do
  let member ← m.memberOf r.user
  let _ ← m.node provider
  let m ← r.slot.write m r.user (some provider)
  return (x.provider? r, m, (x.forget r).record r provider member)

/-- Clears a reference and gives back the node it pointed at. -/
def unassign (x : Index) (m : Model) (r : Reference) :
    Except Model.Error (Option NodeId × Model × Index) := do
  let m ← r.slot.write m r.user none
  return (x.provider? r, m, x.forget r)

end Index

end SchemaEditor.Usage
