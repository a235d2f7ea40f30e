import SchemaEditor.Facade.Registry
import SchemaEditor.Usage.Index
import SchemaEditor.Versioning

/-!
# Graphs

A graph is a model under edit, with the facades that were handed out for its nodes, the where-used
index of its references and a versioning service. Queries are functions of a graph that may be
refused. Edits also change the graph; a refused edit leaves the graph that its steps had reached,
so that "a refused edit changes nothing" is a statement about the edits and not about their type.
-/

namespace SchemaEditor

/-- A model under edit. -/
structure Graph where
  model : Model
  facades : Facade.Registry
  usage : Usage.Index
  versioning : Versioning

/-- Why an object is not of the form that an operation asks for. -/
inductive Mismatch where
  | deleted
  | derivedName
  | emptyName
  | emptyText
  | nameTaken (name : String)
  | notAProperty
  | notAnAlias
  | notAnEnumeration
  | notAnEnumerationValue
  | noAliases
  | noProperties
  | noPropertiesOf (kind : PropertyKind)
  | takesNoType
  | hasNoType
  | extendsNothing
  | cannotExtend
  | extensionCycle
  deriving DecidableEq

/-- The wording of a mismatch, after the name of the object. -/
def Mismatch.reason : Mismatch → String
  | .deleted => "has been deleted"
  | .derivedName => "name is derived"
  | .emptyName => "name cannot be empty"
  | .emptyText => "text cannot be empty"
  | .nameTaken name => "'" ++ name ++ "' already exists"
  | .notAProperty => "is not a property"
  | .notAnAlias => "is not an alias"
  | .notAnEnumeration => "is not an enumeration"
  | .notAnEnumerationValue => "is not an enumeration value"
  | .noAliases => "cannot carry aliases"
  | .noProperties => "cannot hold properties"
  | .noPropertiesOf kind => "cannot hold " ++ kind.profile.label ++ " properties"
  | .takesNoType => "does not take a type"
  | .hasNoType => "has no assigned type"
  | .extendsNothing => "does not extend anything"
  | .cannotExtend => "cannot extend another type"
  | .extensionCycle => "extension would form a cycle"

namespace Graph

/-- Why a query or an edit is refused. -/
inductive Error where
  | identityConflict (node : NodeId) (existing : FacadeId)
  | typeMismatch (user provider : FacadeId)
  | unknownFacade (facade : FacadeId)
  | unsupported (node : NodeId)
  | mismatch (facade : FacadeId) (reason : Mismatch)
  | model (cause : Model.Error)
  deriving DecidableEq

/-- The kind of a refusal in one word. -/
def Error.name : Error → String
  | .identityConflict .. => "IdentityConflict"
  | .typeMismatch .. => "TypeMismatch"
  | .unknownFacade _ => "UnknownFacade"
  | .unsupported _ => "Unsupported"
  | .mismatch .. => "Structure"
  | .model cause => cause.name

/-- The wording of a refusal. -/
def Error.message : Error → String
  | .identityConflict node existing =>
    "node " ++ node.text ++ " is already wrapped by " ++ existing.text
  | .typeMismatch user provider =>
    provider.text ++ " cannot be assigned as a type of " ++ user.text
  | .unknownFacade facade => "unknown facade: " ++ facade.text
  | .unsupported node => "node " ++ node.text ++ " has no supported facade category"
  | .mismatch facade reason => facade.text ++ ": " ++ reason.reason
  | .model cause => cause.message

/-- An edit: it gives a value or a refusal, and in both cases a graph. -/
abbrev Edit := EStateM Error Graph

/-- A graph over a model, with no facades yet. -/
def ofModel (m : Model) (versioning : Versioning) : Except Model.Error Graph := do
  return ⟨m, .empty, ← Usage.Index.seed m, versioning⟩

/-- A query of the model. -/
def ofModelResult {α : Type} : Except Model.Error α → Except Error α
  | .ok a => .ok a
  | .error e => .error (.model e)

/-- Puts a query to the graph under edit. -/
def ask {α : Type} (query : Graph → Except Error α) : Edit α := fun g =>
  match query g with
  | .ok a => .ok a g
  | .error e => .error e g

/-- Changes the model under edit. -/
def editModel (f : Model → Except Model.Error Model) : Edit PUnit := fun g =>
  match f g.model with
  | .ok m => .ok ⟨⟩ { g with model := m }
  | .error e => .error (.model e) g

/-- Changes the model under edit and gives a value. -/
def editModelWith {α : Type} (f : Model → Except Model.Error (α × Model)) : Edit α := fun g =>
  match f g.model with
  | .ok (a, m) => .ok a { g with model := m }
  | .error e => .error (.model e) g

/-- Changes a reference of the model under edit, together with the index. -/
def editUsage {α : Type}
    (f : Usage.Index → Model → Except Model.Error (α × Model × Usage.Index)) : Edit α := fun g =>
  match f g.usage g.model with
  | .ok (a, m, x) => .ok a { g with model := m, usage := x }
  | .error e => .error (.model e) g

/-! ### Facades -/

/-- The facade of a node, created on the first call; none for a node without a kind of facade. -/
def facade? (node : NodeId) : Edit (Option FacadeId) := fun g =>
  match g.model.node node with
  | .error e => .error (.model e) g
  | .ok n =>
    match g.facades.getOrCreate node (Facade.Kind.ofNode? n.kind) with
    | some (id, facades) => .ok (some id) { g with facades }
    | none => .ok none g

/-- The facade of a node, created on the first call. -/
def facadeFor (node : NodeId) : Edit FacadeId := do
  match ← facade? node with
  | some id => return id
  | none => throw (.unsupported node)

/-- The facades of nodes in order, without the nodes that have no kind of facade. -/
def wrapDistinct : List NodeId → Edit (List FacadeId)
  | [] => return []
  | node :: nodes => do
    let id? ← facade? node
    let ids ← wrapDistinct nodes
    return id?.toList ++ ids

/-- The facades of nodes in order, each node once, without those that have no kind of facade. -/
def wrapAll (nodes : List NodeId) : Edit (List FacadeId) := wrapDistinct nodes.eraseDups

/-- The facade that a node already has. -/
def lookup? (g : Graph) (node : NodeId) : Option FacadeId := g.facades.get? node

/-- What a facade stands for. -/
def entry (g : Graph) (id : FacadeId) : Except Error Facade.Entry :=
  match g.facades.entry? id with
  | some e => .ok e
  | none => .error (.unknownFacade id)

/-- The kind of a facade. -/
def kind (g : Graph) (id : FacadeId) : Except Error Facade.Kind := do
  return (← g.entry id).kind

/-- The node of a facade. -/
def nodeOf (g : Graph) (id : FacadeId) : Except Error NodeId := do
  return (← g.entry id).node

/-- The content of the node of a facade. -/
def content (g : Graph) (id : FacadeId) : Except Error Node := do
  ofModelResult (g.model.node (← g.nodeOf id))

/-- Whether the node of a facade is attached. -/
def isAttached (g : Graph) (id : FacadeId) : Except Error Bool := do
  return (← g.content id).attached

/-- The node of a facade, which has to be attached. -/
def attachedNode (g : Graph) (id : FacadeId) : Except Error NodeId := do
  let node ← g.nodeOf id
  let n ← ofModelResult (g.model.node node)
  if n.attached then return node else throw (.mismatch id .deleted)

/-- The facades of the members of a library. -/
def members (library : LibraryId) : Edit (List FacadeId) := do
  let l ← ask fun g => ofModelResult (g.model.library library)
  wrapAll l.members

/-! ### Owners and editability -/

/-- The member that contains the node of a facade. -/
def owningNode (g : Graph) (id : FacadeId) : Except Error NodeId := do
  ofModelResult (g.model.memberOf (← g.nodeOf id))

/-- The facade of the member that contains the node of a facade. -/
def owningMember (id : FacadeId) : Edit FacadeId := do
  facadeFor (← ask (·.owningNode id))

/-- The library that contains the node of a facade. -/
def libraryOf (g : Graph) (id : FacadeId) : Except Error LibraryId := do
  return (← g.content id).library

/-- The editability of the library that contains the node of a facade. -/
def editability (g : Graph) (id : FacadeId) : Except Error Editability := do
  return g.versioning.editability g.model (← g.libraryOf id)

/-- Whether the member that contains the node of a facade is new to its version chain. -/
def isNewToChain (g : Graph) (id : FacadeId) : Except Error Bool := do
  return g.versioning.isNewToChain g.model (← g.owningNode id)

/-- Whether a facade may be edited at all. A facade shown by inheritance stands for the node of the
ancestor, so this is the answer for its true source. -/
def isEditable (g : Graph) (id : FacadeId) : Except Error Bool := do
  if ← g.isAttached id then
    return Policy.isEditable (← g.editability id) (← g.isNewToChain id)
  else return false

/-- Whether a facade that is shown under `parent` belongs elsewhere. A contributed facet belongs to
the object it contributes into, everything else to its owner. -/
def isInherited (g : Graph) (id parent : FacadeId) : Except Error Bool := do
  let n ← g.content id
  let parentNode ← g.nodeOf parent
  return n.contributesTo.or n.owner ≠ some parentNode

end Graph

end SchemaEditor
