import Mathlib.Logic.ExistsUnique
import SchemaEditor.Snapshot.Loader

/-!
# What a snapshot declares

`declarations` lists the nodes that a snapshot asks for, each with its key, its kind and name, and
the texts of its references. `Faithful` says that a model and a table of keys are what the snapshot
declares: the table names each node exactly once, every text has become the reference to the node
with that key, and the libraries are those of the snapshot. A text that is no declared key means a
built-in type; these stand in a library of their own behind the others.
-/

namespace SchemaEditor.Snapshot

/-- A node that a snapshot asks for. -/
structure Declaration where
  key : String
  kind : NodeKind
  name : String
  typeKey : Option String := none
  baseKey : Option String := none
  contributesTo : Option String := none

/-- The text of a reference. -/
def Declaration.text (d : Declaration) : Target → Option String
  | .type => d.typeKey
  | .base => d.baseKey
  | .contribution => d.contributesTo

/-- The reference of a node. -/
def Target.reference (n : Node) : Target → Option NodeId
  | .type => n.typeRef
  | .base => n.base
  | .contribution => n.contributesTo

/-- The standard facet of a member in a role. -/
def facetDeclaration (member : String) (role : FacetRole) : Declaration where
  key := facetKey member role
  kind := .facet role
  name := ""

/-- A property of a member, in whichever part of it. -/
def Property.declaration (member : String) (p : Property) : Declaration where
  key := partKey member p.name
  kind := p.kind
  name := p.name
  typeKey := p.typeKey

/-- A part of a member that has nothing but a kind, a name and a key. -/
def partDeclaration (kind : NodeKind) (keyOf : String → String) (name : String) : Declaration where
  key := keyOf name
  kind := kind
  name := name

/-- The request or response of an action. -/
def payloadDeclaration (action : String) (kind : NodeKind) (ending : String)
    (key : Option String) : Declaration where
  key := payloadKey action ending
  kind := kind
  name := ending
  typeKey := key

/-- An action with its request and response. -/
def Action.declarations (member : String) (a : Action) : List Declaration :=
  let key := actionKey member a.name
  [partDeclaration .resourceAction (actionKey member) a.name,
    payloadDeclaration key .actionRequest "request" a.request,
    payloadDeclaration key .actionResponse "response" a.response]

/-- The node of a member itself. -/
def Member.declaration (m : Member) : Declaration where
  key := m.effectiveKey
  kind := m.kind
  name := m.name
  typeKey := m.typeKey
  baseKey := m.baseKey
  contributesTo := m.contributesTo

/-- The properties of one facet of a member. -/
def sectionDeclarations (member : String) (entry : String × List Property) : List Declaration :=
  entry.2.map (·.declaration member)

/-- The parts of a member. -/
def Member.parts (m : Member) : List Declaration :=
  let key := m.effectiveKey
  m.kind.standardFacets.map (facetDeclaration key) ++
    m.facets.entries.flatMap (sectionDeclarations key) ++
    m.properties.map (·.declaration key) ++
    m.values.map (partDeclaration .enumValue (partKey key)) ++
    m.aliases.map (partDeclaration .aliasName (aliasKey key)) ++
    m.actions.flatMap (·.declarations key)

/-- A member with its parts. -/
def Member.declarations (m : Member) : List Declaration := m.declaration :: m.parts

/-- The members of a library with their parts. -/
def Library.declarations (lib : Library) : List Declaration :=
  lib.members.flatMap Member.declarations

/-- All nodes that a snapshot asks for. -/
def declarations (s : Snapshot) : List Declaration := s.libraries.flatMap Library.declarations

/-- A text of the snapshot that is no key of it. -/
def Foreign (ds : List Declaration) (key : String) : Prop :=
  (∃ d ∈ ds, ∃ t : Target, d.text t = some key) ∧ ∀ d ∈ ds, d.key ≠ key

/-- A library as it is loaded, given the nodes of the keys. -/
def Library.loaded (keys : Keys) (lib : Library) : SchemaEditor.Library :=
  { Library.draft lib.name lib.uri with
    version := lib.version
    status := lib.status
    managed := lib.managed
    lockedBy := lib.lockedBy
    members := lib.members.filterMap fun m => keys[m.effectiveKey]? }

/-- A reference is set to the node with a key if there is a text, and else it is not set. -/
def Keys.Means (keys : Keys) (text : Option String) (reference : Option NodeId) : Prop :=
  match text with
  | some key => ∃ id, keys[key]? = some id ∧ reference = some id
  | none => reference = none

/-- A model with a table of keys is what a snapshot declares. -/
structure Faithful (s : Snapshot) (loaded : Loaded) : Prop where
  named : ∀ id n, loaded.model.node? id = some n → ∃! key : String, loaded.keys[key]? = some id
  node : ∀ (key : String) id, loaded.keys[key]? = some id → ∃ n, loaded.model.node? id = some n
  keyOf : ∀ (key : String) id, loaded.keys[key]? = some id → loaded.keys.keyOf? id = some key
  declared : ∀ d ∈ s.declarations, ∃ id n, loaded.keys[d.key]? = some id ∧
    loaded.model.node? id = some n ∧ n.kind = d.kind ∧ n.name = d.name ∧
    ∀ t : Target, loaded.keys.Means (d.text t) (t.reference n)
  builtin : ∀ (key : String) id n, loaded.keys[key]? = some id → loaded.model.node? id = some n →
    (∀ d ∈ s.declarations, d.key ≠ key) →
    Foreign s.declarations key ∧ n.kind = .member .xsdSimple ∧ builtinName? key = some n.name ∧
      ∀ t : Target, t.reference n = none
  libraries : (∀ key, ¬ Foreign s.declarations key) →
    loaded.model.libraries.toList = s.libraries.map (·.loaded loaded.keys)
  builtinLibrary : (∃ key, Foreign s.declarations key) → ∃ members : List NodeId,
    loaded.model.libraries.toList = s.libraries.map (·.loaded loaded.keys) ++
      [{ Builder.builtinLibrary with members }] ∧ members.Nodup ∧
    ∀ id, id ∈ members ↔
      ∃ key : String, loaded.keys[key]? = some id ∧ ∀ d ∈ s.declarations, d.key ≠ key

end SchemaEditor.Snapshot
