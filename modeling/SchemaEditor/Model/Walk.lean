import SchemaEditor.Model.Basic

/-!
# Walks over a model

Queries that follow owners, children, bases and version chains, and detaching, which needs one of
them. An owner comes before what it owns in the arena, so climbing descends in position; a walk
over children meets no node twice, so it ends within as many steps as there are nodes. Bases may
form cycles: the walk over them stops at the first node it has seen.
-/

namespace SchemaEditor.Model

/-- The nodes that a stack of nodes still has to yield, each before its children and they in
order, in at most `fuel` steps. -/
def preorderFrom (m : Model) : Nat → List NodeId → Except Error (List NodeId)
  | _, [] => .ok []
  | 0, _ => .ok []
  | fuel + 1, id :: stack =>
    match m.node id with
    | .error e => .error e
    | .ok n => (preorderFrom m fuel (n.children ++ stack)).map (id :: ·)

/-- A node and all nodes below it, each before its children. -/
def subtree (m : Model) (id : NodeId) : Except Error (List NodeId) :=
  m.preorderFrom (m.nodes.size + 1) [id]

/-- Takes a node out of the list that holds it: that of its owner, or that of its library. -/
def unlink (m : Model) (id : NodeId) (n : Node) : Model :=
  match n.owner with
  | some owner =>
    m.modifyNode owner fun o => { o with children := o.children.filter (· ≠ id) }
  | none =>
    m.modifyLibrary n.library fun l => { l with members := l.members.filter (· ≠ id) }

/-- Marks nodes as detached. -/
def markDetached (m : Model) (ids : List NodeId) : Model :=
  ids.foldl (fun m id => m.modifyNode id fun n => { n with attached := false }) m

/-- Detaches a node with everything below it and gives the detached nodes, itself first. -/
def detach (m : Model) (id : NodeId) : Except Error (List NodeId × Model) := do
  let n ← m.node id
  if !n.attached then throw (.detached id)
  let unlinked := m.unlink id n
  let ids ← unlinked.subtree id
  return (ids, unlinked.markDetached ids)

/-- The member that contains a node; a member contains itself. -/
def memberOf (m : Model) (id : NodeId) : Except Error NodeId :=
  match m.node id with
  | .error e => .error e
  | .ok n =>
    match n.owner with
    | none => .ok id
    | some owner =>
      if owner.index < id.index then memberOf m owner else .ok id
termination_by id.index

/-- The name of a node. Facets are named after their owner, as are requests and responses;
everything else has the name it was given. -/
def nodeName (m : Model) (id : NodeId) : Except Error String :=
  match m.node id with
  | .error e => .error e
  | .ok n =>
    let derived (ending : String) : Except Error String :=
      match n.owner with
      | none => .ok ending
      | some owner =>
        if owner.index < id.index then (nodeName m owner).map (· ++ ending) else .ok ending
    match n.kind with
    | .facet role => derived ("_" ++ role.suffix)
    | .actionRequest => derived "_Request"
    | .actionResponse => derived "_Response"
    | _ => .ok n.name
termination_by id.index

/-- The facet of an object in a role. -/
def facet? (m : Model) (member : NodeId) (role : FacetRole) : Option NodeId :=
  (m.node? member).bind fun n =>
    n.children.find? fun c => (m.node? c).any fun child => child.kind = .facet role

/-- The attached nodes that contribute into a node, in the order of the arena. -/
def contributions (m : Model) (target : NodeId) : List NodeId :=
  m.nodeIds.filter fun id =>
    (m.node? id).any fun n => n.attached && n.contributesTo = some target

/-- The attached member of a library with a name. -/
def findMember? (m : Model) (library : LibraryId) (name : String) : Option NodeId :=
  (m.library? library).bind fun l =>
    l.members.find? fun id => (m.node? id).any fun n => n.attached && n.name = name

/-- Whether two libraries are versions of one chain: they share name, namespace and major number. -/
def sameChain (a b : Library) : Bool :=
  a.uri = b.uri && a.name = b.name && a.version.major = b.version.major

/-- The libraries in the chain of a library, oldest first; equal versions stay in their order. -/
def chain (m : Model) (library : LibraryId) : List LibraryId :=
  match m.library? library with
  | none => []
  | some l =>
    let versions := m.libraryIds.filterMap fun id =>
      match m.library? id with
      | some other => if sameChain other l then some (id, other.version) else none
      | none => none
    (versions.mergeSort fun a b => decide (a.2 ≤ b.2)).map (·.1)

/-- The base of a node. -/
def base? (m : Model) (id : NodeId) : Option NodeId := (m.node? id).bind (·.base)

/-- The bases from `current` on up to the first one seen before, in at most `fuel` steps. -/
def basesFrom (m : Model) : Nat → List NodeId → Option NodeId → List NodeId
  | 0, _, _ => []
  | _, _, none => []
  | fuel + 1, seen, some base =>
    if base ∈ seen then [] else base :: basesFrom m fuel (base :: seen) (m.base? base)

/-- The bases of a member, nearest first, up to the point where they repeat. -/
def baseChain (m : Model) (member : NodeId) : List NodeId :=
  m.basesFrom (m.nodes.size + 1) [member] (m.base? member)

end SchemaEditor.Model
