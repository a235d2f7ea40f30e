import Std.Data.TreeMap
import SchemaEditor.Model.Builder
import SchemaEditor.Snapshot.Basic

/-!
# Loading snapshots

Members are added in order with everything they hold, and each node is entered into the table of
keys. References are collected on the way and resolved when all nodes exist, in the order in which
they were met, so they may point forward. A reference `xsd:name` that is no key means a built-in
type, which is created, and entered under that key, when it is first met.
-/

namespace SchemaEditor.Snapshot

/-- Why a snapshot cannot be loaded. -/
inductive Error where
  | model (cause : Model.Error)
  | duplicateKey (key : String)
  | danglingReference (key : String)
  | notAProperty (name memberKey : String)
  | unknownRole (role : String)
  | missingFacet (memberKey role : String)
  deriving DecidableEq

/-- The kind of a refusal in one word. -/
def Error.name : Error → String
  | .model cause => cause.name
  | .duplicateKey _ => "DuplicateKey"
  | .danglingReference _ => "DanglingReference"
  | .notAProperty .. | .unknownRole _ | .missingFacet .. => "Snapshot"

/-- The wording of a refusal. -/
def Error.message : Error → String
  | .model cause => cause.message
  | .duplicateKey key => "duplicate snapshot key '" ++ key ++ "'"
  | .danglingReference key => "snapshot reference '" ++ key ++ "' does not resolve"
  | .notAProperty name memberKey =>
    "invalid snapshot: '" ++ name ++ "' in '" ++ memberKey ++ "' is not a property kind"
  | .unknownRole role => "invalid snapshot: unknown facet role '" ++ role ++ "'"
  | .missingFacet memberKey role =>
    "invalid snapshot: '" ++ memberKey ++ "' has no " ++ role ++ " facet"

/-- The table of keys. -/
abbrev Keys := Std.TreeMap String NodeId

/-- The node with a key. -/
def Keys.node (keys : Keys) (key : String) : Except Error NodeId :=
  match keys[key]? with
  | some node => .ok node
  | none => .error (.danglingReference key)

/-- The first key of a node, in the order of keys. -/
def Keys.keyOf? (keys : Keys) (node : NodeId) : Option String :=
  (keys.toList.find? fun e => e.2 = node).map (·.1)

/-- Which reference of a node is to be set. -/
inductive Target where
  | type
  | base
  | contribution
  deriving DecidableEq

/-- A reference to be resolved. -/
structure Pending where
  node : NodeId
  target : Target
  key : String
  deriving DecidableEq

/-- A load under way. -/
structure Loader where
  builder : Builder
  keys : Keys
  /-- The references met so far, in order. -/
  pending : List Pending

/-- The model of a snapshot with its table of keys. -/
structure Loaded where
  model : Model
  keys : Keys

namespace Loader

/-- The load that has seen nothing. -/
def start : Loader := ⟨.empty, {}, []⟩

/-- Enters a node into the table of keys. -/
def enter (l : Loader) (key : String) (node : NodeId) : Except Error Loader :=
  if l.keys.contains key then .error (.duplicateKey key)
  else .ok { l with keys := l.keys.insert key node }

/-- Notes a reference to be resolved, if there is one. -/
def defer (l : Loader) (node : NodeId) (target : Target) : Option String → Loader
  | some key => { l with pending := l.pending ++ [⟨node, target, key⟩] }
  | none => l

/-- Takes a step of the builder. -/
def build {α : Type} (l : Loader) (step : Builder → Except Model.Error (α × Builder)) :
    Except Error (α × Loader) :=
  match step l.builder with
  | .ok (a, builder) => .ok (a, { l with builder })
  | .error e => .error (.model e)

/-- Changes a node that was just added. -/
def refine (l : Loader) (node : NodeId) (f : Node → Node) : Loader :=
  { l with builder := { l.builder with model := l.builder.model.modifyNode node f } }

/-- Adds a property under an owner. -/
def property (owner : NodeId) (memberKey : String) (l : Loader) (p : Property) :
    Except Error Loader := do
  if !p.kind.isProperty then throw (.notAProperty p.name memberKey)
  let (node, l) ← l.build fun b => b.child owner p.kind p.name
  let l := l.refine node fun n =>
    { n with mandatory := p.mandatory, doc := { n.doc with description := p.description } }
  (l.defer node .type p.typeKey).enter (partKey memberKey p.name) node

/-- Enters a standard facet of a member. -/
def standardFacet (member : NodeId) (memberKey : String) (l : Loader) (role : FacetRole) :
    Except Error Loader :=
  match l.builder.model.facet? member role with
  | some facet => l.enter (facetKey memberKey role) facet
  | none => .ok l

/-- Adds the properties of one facet. -/
def section_ (member : NodeId) (memberKey : String) (l : Loader)
    (entry : String × List Property) : Except Error Loader :=
  match FacetRole.ofName? entry.1 with
  | none => .error (.unknownRole entry.1)
  | some role =>
    match l.builder.model.facet? member role with
    | none => .error (.missingFacet memberKey entry.1)
    | some facet => entry.2.foldlM (property facet memberKey) l

/-- Adds a part that has nothing but a kind, a name and a key. -/
def part (owner : NodeId) (kind : NodeKind) (keyOf : String → String) (l : Loader)
    (name : String) : Except Error Loader := do
  let (node, l) ← l.build fun b => b.child owner kind name
  l.enter (keyOf name) node

/-- Adds the request or response of an action. -/
def payload (action : NodeId) (actionKey : String) (kind : NodeKind) (ending : String)
    (l : Loader) (key : Option String) : Except Error Loader := do
  let (node, l) ← l.build fun b => b.child action kind ending
  let l ← l.enter (payloadKey actionKey ending) node
  return l.defer node .type key

/-- Adds an action with its request and response. -/
def action (member : NodeId) (memberKey : String) (l : Loader) (a : Action) :
    Except Error Loader := do
  let (node, l) ← l.build fun b => b.child member .resourceAction a.name
  let key := actionKey memberKey a.name
  let l ← l.enter key node
  let l ← l.payload node key .actionRequest "request" a.request
  l.payload node key .actionResponse "response" a.response

/-- Adds a member with everything it holds. -/
def member (library : LibraryId) (l : Loader) (m : Member) : Except Error Loader := do
  let key := m.effectiveKey
  let (node, l) ← l.build fun b => b.member library m.kind m.name
  let l := l.refine node fun n => { n with doc := { n.doc with description := m.description } }
  let l ← l.enter key node
  let l ← m.kind.standardFacets.foldlM (standardFacet node key) l
  let l ← m.facets.entries.foldlM (section_ node key) l
  let l ← m.properties.foldlM (property node key) l
  let l ← m.values.foldlM (part node .enumValue (partKey key)) l
  let l ← m.aliases.foldlM (part node .aliasName (aliasKey key)) l
  let l ← m.actions.foldlM (action node key) l
  let l := l.defer node .type m.typeKey
  let l := l.defer node .base m.baseKey
  return l.defer node .contribution m.contributesTo

/-- Adds a library with its members. -/
def library (l : Loader) (lib : Library) : Except Error Loader :=
  let (id, builder) := l.builder.library
    { Library.draft lib.name lib.uri with
      version := lib.version, status := lib.status, managed := lib.managed
      lockedBy := lib.lockedBy }
  lib.members.foldlM (member id) { l with builder }

/-- The node that a reference means. -/
def resolve (l : Loader) (key : String) : Except Error (NodeId × Loader) :=
  match l.keys[key]? with
  | some node => .ok (node, l)
  | none =>
    match builtinName? key with
    | none => .error (.danglingReference key)
    | some name =>
      let (node, builder) := l.builder.xsd name
      .ok (node, { l with builder, keys := l.keys.insert key node })

/-- Sets one reference. -/
def settle (l : Loader) (p : Pending) : Except Error Loader := do
  let (node, l) ← l.resolve p.key
  let set := match p.target with
    | .type => l.builder.assign p.node node
    | .base => l.builder.extend p.node node
    | .contribution => l.builder.contribute p.node node
  match set with
  | .ok builder => return { l with builder }
  | .error e => throw (.model e)

end Loader

/-- The model of a snapshot. -/
def load (s : Snapshot) : Except Error Loaded := do
  let l ← s.libraries.foldlM Loader.library Loader.start
  let l ← l.pending.foldlM Loader.settle l
  return ⟨l.builder.model, l.keys⟩

end SchemaEditor.Snapshot
