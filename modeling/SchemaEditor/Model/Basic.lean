import SchemaEditor.Id
import SchemaEditor.Version
import SchemaEditor.Model.Kind

/-!
# Models

A model holds libraries and an arena of nodes. A library lists its members; a member lists its
facets, properties and other parts as children. Nodes are never removed: a node that is detached
keeps its id and content, so an id names the same node forever.

`setTypeRef` and `setBase` write single references; whoever keeps an index of references has to
write through the index.
-/

namespace SchemaEditor

/-- The texts that document a node. -/
structure Documentation where
  description : String
  example_ : String
  deprecation : String
  deriving DecidableEq

/-- No documentation. -/
def Documentation.empty : Documentation := ⟨"", "", ""⟩

/-- How far a library is on its way to publication. -/
inductive LibraryStatus where
  | draft
  | underReview
  | final
  | obsolete
  deriving DecidableEq

/-- A named, versioned container of members. -/
structure Library where
  name : String
  /-- The namespace without its version part; the versions of one library share it. -/
  uri : String
  version : Version
  status : LibraryStatus
  /-- Whether the library lives in a repository and has to be locked for editing. -/
  managed : Bool
  lockedBy : Option String
  builtin : Bool
  /-- The members in the order of their declaration. -/
  members : List NodeId
  deriving DecidableEq

/-- An unmanaged draft at version 1.0.0 without members. -/
def Library.draft (name uri : String) : Library :=
  { name, uri, version := .initial, status := .draft, managed := false, lockedBy := none
    builtin := false, members := [] }

/-- An element of a schema. -/
structure Node where
  kind : NodeKind
  library : LibraryId
  /-- The node that lists this one; none for a member. -/
  owner : Option NodeId
  name : String
  doc : Documentation
  children : List NodeId
  typeRef : Option NodeId
  base : Option NodeId
  /-- The object into which a member contributes a facet. -/
  contributesTo : Option NodeId
  mandatory : Bool
  attached : Bool
  deriving DecidableEq

/-- An attached node with nothing but its kind, place and name. -/
def Node.fresh (kind : NodeKind) (library : LibraryId) (owner : Option NodeId) (name : String) :
    Node :=
  { kind, library, owner, name, doc := .empty, children := [], typeRef := none, base := none
    contributesTo := none, mandatory := false, attached := true }

/-- The arena of nodes and the list of libraries. -/
structure Model where
  libraries : Array Library
  nodes : Array Node
  deriving DecidableEq

namespace Model

/-- Why an operation on a model is refused. -/
inductive Error where
  | unknownNode (node : NodeId)
  | unknownLibrary (library : LibraryId)
  | notAMember (kind : NodeKind)
  | detached (node : NodeId)
  | missingFacet (member : NodeId) (role : FacetRole)
  deriving DecidableEq

end Model

/-- A node as messages show it. -/
def NodeId.text (id : NodeId) : String := "node#" ++ Text.Decimal.ofNat id.index

/-- A library as messages show it. -/
def LibraryId.text (id : LibraryId) : String := "lib#" ++ Text.Decimal.ofNat id.index

/-- A facade as messages show it. -/
def FacadeId.text (id : FacadeId) : String := "facade#" ++ Text.Decimal.ofNat id.index

namespace Model

/-- The kind of a refusal in one word. -/
def Error.name : Error → String
  | .unknownNode _ => "UnknownNode"
  | .unknownLibrary _ => "UnknownLibrary"
  | .notAMember _ => "NotAMember"
  | .detached _ => "Detached"
  | .missingFacet .. => "Snapshot"

/-- The wording of a refusal. -/
def Error.message : Error → String
  | .unknownNode node => "unknown node: " ++ node.text
  | .unknownLibrary library => "unknown library: " ++ library.text
  | .notAMember kind => kind.label ++ " cannot be a top-level library member"
  | .detached node => "node " ++ node.text ++ " is detached from the model"
  | .missingFacet member role =>
    "invalid snapshot: " ++ member.text ++ " has no " ++ Text.capitalized role.name ++ " facet"

/-- The model without libraries and nodes. -/
def empty : Model := ⟨#[], #[]⟩

/-- The node with an id. -/
def node? (m : Model) (id : NodeId) : Option Node := m.nodes[id.index]?

/-- The library with an id. -/
def library? (m : Model) (id : LibraryId) : Option Library := m.libraries[id.index]?

/-- The node with an id, which has to exist. -/
def node (m : Model) (id : NodeId) : Except Error Node :=
  match m.node? id with
  | some n => .ok n
  | none => .error (.unknownNode id)

/-- The library with an id, which has to exist. -/
def library (m : Model) (id : LibraryId) : Except Error Library :=
  match m.library? id with
  | some l => .ok l
  | none => .error (.unknownLibrary id)

/-- The ids of all nodes, in order. -/
def nodeIds (m : Model) : List NodeId := (List.range m.nodes.size).map NodeId.mk

/-- The ids of all libraries, in order. -/
def libraryIds (m : Model) : List LibraryId := (List.range m.libraries.size).map LibraryId.mk

/-- Changes one node; a model without the node stays as it is. -/
def modifyNode (m : Model) (id : NodeId) (f : Node → Node) : Model :=
  { m with nodes := m.nodes.modify id.index f }

/-- Changes one library; a model without the library stays as it is. -/
def modifyLibrary (m : Model) (id : LibraryId) (f : Library → Library) : Model :=
  { m with libraries := m.libraries.modify id.index f }

/-- Changes one node, which has to exist. -/
def update (m : Model) (id : NodeId) (f : Node → Node) : Except Error Model :=
  match m.node? id with
  | some _ => .ok (m.modifyNode id f)
  | none => .error (.unknownNode id)

/-- Adds a library at the end. -/
def addLibrary (m : Model) (library : Library) : LibraryId × Model :=
  (⟨m.libraries.size⟩, { m with libraries := m.libraries.push library })

/-- Adds a node at the end of the arena and lists it last under its owner. -/
def appendChild (m : Model) (owner : NodeId) (library : LibraryId) (kind : NodeKind)
    (name : String) : NodeId × Model :=
  let id : NodeId := ⟨m.nodes.size⟩
  let pushed := { m with nodes := m.nodes.push (.fresh kind library (some owner) name) }
  (id, pushed.modifyNode owner fun n => { n with children := n.children ++ [id] })

/-- Adds a member at the end of a library, with the standard facets of its kind. -/
def appendMember (m : Model) (library : LibraryId) (kind : NodeKind) (name : String) :
    NodeId × Model :=
  let id : NodeId := ⟨m.nodes.size⟩
  let pushed := { m with nodes := m.nodes.push (.fresh kind library none name) }
  let listed := pushed.modifyLibrary library fun l => { l with members := l.members ++ [id] }
  (id, kind.standardFacets.foldl (fun m role => (m.appendChild id library (.facet role) "").2) listed)

/-- Adds a member to a library. Business, core and choice objects receive their facets. -/
def addMember (m : Model) (library : LibraryId) (kind : NodeKind) (name : String) :
    Except Error (NodeId × Model) := do
  if !kind.isMember then throw (.notAMember kind)
  let _ ← m.library library
  return m.appendMember library kind name

/-- Adds a child under an attached node. -/
def addChild (m : Model) (owner : NodeId) (kind : NodeKind) (name : String) :
    Except Error (NodeId × Model) := do
  let parent ← m.node owner
  if !parent.attached then throw (.detached owner)
  return m.appendChild owner parent.library kind name

/-- Renames a node. -/
def setName (m : Model) (id : NodeId) (name : String) : Except Error Model :=
  m.update id fun n => { n with name }

/-- Changes the documentation of a node. -/
def modifyDoc (m : Model) (id : NodeId) (f : Documentation → Documentation) : Except Error Model :=
  m.update id fun n => { n with doc := f n.doc }

/-- Says whether a node is mandatory. -/
def setMandatory (m : Model) (id : NodeId) (mandatory : Bool) : Except Error Model :=
  m.update id fun n => { n with mandatory }

/-- Writes the reference of a node to its type. -/
def setTypeRef (m : Model) (id : NodeId) (provider : Option NodeId) : Except Error Model :=
  m.update id fun n => { n with typeRef := provider }

/-- Writes the reference of a node to its base. -/
def setBase (m : Model) (id : NodeId) (base : Option NodeId) : Except Error Model :=
  m.update id fun n => { n with base }

/-- Writes the object into which a node contributes. -/
def setContributesTo (m : Model) (id : NodeId) (target : Option NodeId) : Except Error Model :=
  m.update id fun n => { n with contributesTo := target }

end Model

end SchemaEditor
