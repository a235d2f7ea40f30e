import SchemaEditor.Graph.Basic
import SchemaEditor.Model.Fingerprint

/-!
# Consistency of a graph

`verify` lists the faults of a model, a registry of facades and a where-used index taken together:
nodes with two facades, lists that disagree with owners, references of attached nodes to detached
ones, and references that stand in the model or in the index only. A query of the model that is
refused ends the group of checks in which it occurs.
-/

namespace SchemaEditor

/-- One inconsistency. -/
inductive Fault where
  | duplicateFacade (node : NodeId) (first second : FacadeId)
  | lookupMismatch (node : NodeId) (facade : FacadeId)
  | indexMismatch (reference : Usage.Reference) (inModel inIndex : Option NodeId)
  | danglingReference (user provider : NodeId)
  | orphanChild (owner child : NodeId)
  | foreignChild (owner child : NodeId)
  | unlistedMember (library : LibraryId) (member : NodeId)
  | model (cause : Model.Error)
  deriving DecidableEq

namespace Fault

/-- The name of a kind of fault. -/
def name : Fault → String
  | .duplicateFacade .. => "DuplicateFacade"
  | .lookupMismatch .. => "LookupMismatch"
  | .indexMismatch .. => "IndexMismatch"
  | .danglingReference .. => "DanglingReference"
  | .orphanChild .. => "OrphanChild"
  | .foreignChild .. => "ForeignChild"
  | .unlistedMember .. => "UnlistedMember"
  | .model _ => "Model"

/-- A fault in words. -/
def message : Fault → String
  | .duplicateFacade node first second =>
    "node " ++ node.text ++ " is wrapped by facades " ++ first.text ++ " and " ++ second.text
  | .lookupMismatch node facade =>
    "registry lookup for node " ++ node.text ++ " disagrees with facade " ++ facade.text
  | .indexMismatch r inModel inIndex =>
    "node " ++ r.user.text ++ " " ++ Text.capitalized r.slot.name ++ " reference is " ++
      Model.optionText inModel ++ " in the model but " ++ Model.optionText inIndex ++
      " in the where-used index"
  | .danglingReference user provider =>
    "attached node " ++ user.text ++ " references detached node " ++ provider.text
  | .orphanChild owner child =>
    "node " ++ child.text ++ " is not listed among the children of its owner " ++ owner.text
  | .foreignChild owner child =>
    "node " ++ child.text ++ " is listed under " ++ owner.text ++ " but owned elsewhere"
  | .unlistedMember library member =>
    "member " ++ member.text ++ " is missing from library " ++ library.text
  | .model cause => "model error during verification: " ++ cause.message

end Fault

namespace Verify

/-- The outcome of a check: a fault, or a query of the model that was refused. -/
abbrev Item := Except Model.Error Fault

/-- The faults among outcomes, up to the first refused query. -/
def collect : List Item → List Fault
  | [] => []
  | .ok fault :: items => fault :: collect items
  | .error e :: _ => [.model e]

/-- The outcome of a condition on a node that a query gives. -/
def require (m : Model) (id : NodeId) (holds : Node → Bool) (fault : Fault) : List Item :=
  match m.node id with
  | .error e => [.error e]
  | .ok n => if holds n then [] else [.ok fault]

/-- Facades of nodes that have an earlier facade, and facades that are not found by their nodes. -/
def identityFaults (r : Facade.Registry) : List Fault :=
  r.toList.flatMap fun (id, e) =>
    let earlier := (r.toList.take id.index).reverse.find? fun other => other.2.node = e.node
    (match earlier with
      | some (first, _) => [.duplicateFacade e.node first id]
      | none => []) ++
    (if r.get? e.node = some id then [] else [.lookupMismatch e.node id])

/-- An attached node has to be listed where it belongs. -/
def listing (m : Model) (id : NodeId) (n : Node) : List Item :=
  match n.owner with
  | some owner => require m owner (fun o => o.children.contains id) (.orphanChild owner id)
  | none =>
    match m.library n.library with
    | .error e => [.error e]
    | .ok l => if l.members.contains id then [] else [.ok (.unlistedMember n.library id)]

/-- The listed children of a node have to be its own, and its references attached. -/
def content (m : Model) (id : NodeId) (n : Node) : List Item :=
  (n.children.flatMap fun child =>
    require m child (fun c => c.owner = some id) (.foreignChild id child)) ++
  ((n.typeRef.toList ++ n.base.toList).flatMap fun provider =>
    require m provider (·.attached) (.danglingReference id provider))

/-- What holds of each attached node. -/
def forAttached (m : Model) (check : NodeId → Node → List Item) : List Item :=
  m.nodeIds.flatMap fun id =>
    match m.node? id with
    | some n => if n.attached then check id n else []
    | none => []

/-- Faults of owners, lists and references in the model alone. -/
def structureFaults (m : Model) : List Fault :=
  collect (forAttached m fun id n => listing m id n ++ content m id n)

/-- A reference of an attached node that the index has otherwise. -/
def slotInIndex (x : Usage.Index) (id : NodeId) (n : Node) (slot : Usage.Slot) : List Item :=
  let r : Usage.Reference := ⟨id, slot⟩
  if x.provider? r = slot.reference n then []
  else [.ok (.indexMismatch r (slot.reference n) (x.provider? r))]

/-- A reference of the index that the model has otherwise. -/
def referenceInModel (m : Model) (provider : NodeId) (r : Usage.Reference) : List Item :=
  match m.node r.user with
  | .error e => [.error e]
  | .ok n =>
    if r.slot.reference n = some provider then []
    else [.ok (.indexMismatch r (r.slot.reference n) (some provider))]

/-- References that stand in the model or in the index only. -/
def usageFaults (m : Model) (x : Usage.Index) : List Fault :=
  collect <|
    (forAttached m fun id n => slotInIndex x id n .type ++ slotInIndex x id n .base) ++
    (x.providers.flatMap fun provider =>
      (x.usersOf provider).flatMap (referenceInModel m provider))

end Verify

/-- The faults of a model with a registry of facades and a where-used index. -/
def verify (m : Model) (r : Facade.Registry) (x : Usage.Index) : List Fault :=
  Verify.identityFaults r ++ Verify.structureFaults m ++ Verify.usageFaults m x

/-- The faults of a graph. -/
def Graph.verify (g : Graph) : List Fault := SchemaEditor.verify g.model g.facades g.usage

end SchemaEditor
