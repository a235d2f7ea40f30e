import SchemaEditor.Graph.Naming

/-!
# Children of facades

What is listed under a facade, what is inherited from the bases of an object, and the edits that
add parts and delete them.
-/

namespace SchemaEditor.Graph

/-- The facades under a facade: its own children, then the facets contributed into it. -/
def children (id : FacadeId) : Edit (List FacadeId) := do
  let node ← ask (·.nodeOf id)
  let n ← ask fun g => ofModelResult (g.model.node node)
  let g ← get
  wrapAll (n.children ++ g.model.contributions node)

/-- The nodes that the bases of an object offer to a facade, nearest base first: to a facet, the
children of the facets in its role; to the object itself, the facets contributed into the bases. -/
def inheritanceCandidates (g : Graph) (id : FacadeId) : Except Error (List NodeId) := do
  let node ← g.nodeOf id
  match ← g.kind id with
  | .facet role =>
    match (← ofModelResult (g.model.node node)).owner with
    | none => return []
    | some owner =>
      let facets := (g.model.baseChain owner).filterMap fun base => g.model.facet? base role
      let lists ← facets.mapM fun facet => ofModelResult (g.model.node facet)
      return lists.flatMap (·.children)
  | kind =>
    if kind.supportsBase then return (g.model.baseChain node).flatMap g.model.contributions
    else return []

/-- The nodes among the candidates whose names are not hidden, by a name given or by an earlier
candidate. -/
def unhidden (m : Model) (hidden : List String) : List NodeId → Except Model.Error (List NodeId)
  | [] => .ok []
  | node :: nodes => do
    let name ← m.nodeName node
    if name ∈ hidden then unhidden m hidden nodes
    else return node :: (← unhidden m (name :: hidden) nodes)

/-- The nodes that a facade inherits: a name that is declared in the facade itself or in a nearer
base hides the farther ones. -/
def inheritedNodes (g : Graph) (id : FacadeId) : Except Error (List NodeId) := do
  let candidates ← g.inheritanceCandidates id
  let own ← ofModelResult (g.model.childNames (← g.nodeOf id))
  ofModelResult (unhidden g.model own candidates)

/-- The facades that a facade inherits from the bases of its object. -/
def inheritedChildren (id : FacadeId) : Edit (List FacadeId) := do
  wrapAll (← ask (·.inheritedNodes id))

/-- The node that holds the properties added to a facade: business and core objects add to their
summary, choice objects to their shared facet. -/
def propertyContainer? (g : Graph) (id : FacadeId) : Except Error (Option NodeId) := do
  let node ← g.nodeOf id
  match ← g.kind id with
  | .facet _ | .member .valueWithAttributes | .member (.contextualFacet _) => return some node
  | .member .businessObject | .member .coreObject => return g.model.facet? node .summary
  | .member .choiceObject => return g.model.facet? node .shared
  | _ => return none

/-- Whether a container of a kind takes a property of a kind. -/
def takesProperty (container : NodeKind) (kind : PropertyKind) : Bool :=
  container ≠ .member .valueWithAttributes || kind = .plainAttribute || kind = .indicator

/-- The attached node that a new property of a kind would be added to. -/
def acceptingContainer? (g : Graph) (id : FacadeId) (kind : PropertyKind) :
    Except Error (Option NodeId) := do
  match ← g.propertyContainer? id with
  | none => return none
  | some container =>
    let n ← ofModelResult (g.model.node container)
    return if n.attached ∧ takesProperty n.kind kind then some container else none

/-- Whether a facade takes a new property of a kind. -/
def acceptsProperty (g : Graph) (id : FacadeId) (kind : PropertyKind) : Except Error Bool := do
  return (← g.acceptingContainer? id kind).isSome

/-- The name that a new property asks for: the given name under the rule of its kind, or the
default name of its kind. -/
def requestedName (kind : PropertyKind) (name : Option String) : String :=
  let given := (name.map Text.trim).getD ""
  if kind.profile.naming = .fromType ∨ given = "" then kind.profile.defaultName
  else kind.profile.naming.apply given

/-- Adds a property under a name that no sibling has. -/
def addProperty (id : FacadeId) (kind : PropertyKind) (name : Option String) : Edit FacadeId := do
  match ← ask (·.acceptingContainer? id kind) with
  | none => throw (.mismatch id (.noPropertiesOf kind))
  | some container =>
    let taken ← ask fun g => ofModelResult (g.model.childNames container)
    let name := Naming.uniqueName (requestedName kind name) taken
    let node ← editModelWith fun m => m.addChild container (.property kind) name
    if kind.profile.required then editModel fun m => m.setMandatory node true
    facadeFor node

/-- Whether a facade has a child with a name. -/
def hasChildNamed (g : Graph) (id : FacadeId) (name : String) : Except Error Bool := do
  return (← ofModelResult (g.model.childNames (← g.nodeOf id))).contains name

/-- Adds a child under a name that no sibling may have. -/
def addNamedChild (id : FacadeId) (kind : NodeKind) (name : String) : Edit FacadeId := do
  let owner ← ask (·.attachedNode id)
  let name := Text.trim name
  if name = "" then throw (.mismatch id .emptyName)
  let taken ← ask fun g => ofModelResult (g.model.childNames owner)
  if name ∈ taken then throw (.mismatch id (.nameTaken name))
  let node ← editModelWith fun m => m.addChild owner kind name
  facadeFor node

/-- Adds an alias to an object. -/
def addAlias (id : FacadeId) (name : String) : Edit FacadeId := do
  if !(← ask (·.kind id)).supportsAliases then throw (.mismatch id .noAliases)
  addNamedChild id .aliasName (Text.upperFirst (Text.trim name))

/-- Adds a literal to an enumeration. -/
def addEnumValue (id : FacadeId) (literal : String) : Edit FacadeId := do
  if !(← ask (·.kind id)).isEnumeration then throw (.mismatch id .notAnEnumeration)
  addNamedChild id .enumValue literal

/-- Clears a reference if it is set. -/
def clearIfSet (r : Usage.Reference) : Edit PUnit := do
  let g ← get
  if (g.usage.provider? r).isSome then
    let _ ← editUsage fun x m => x.unassign m r

/-- Clears the references that a node has, then those that point at it. -/
def clearReferences (node : NodeId) : Edit PUnit := do
  clearIfSet ⟨node, .type⟩
  clearIfSet ⟨node, .base⟩
  let g ← get
  (g.usage.usersOf node).forM fun r => do
    let _ ← editUsage fun x m => x.unassign m r

/-- Deletes the node of a facade with everything below it and gives the deleted nodes. References
into the deleted part and out of it are cleared first, so none is left to a detached node. -/
def delete (id : FacadeId) : Edit (List NodeId) := do
  let node ← ask (·.attachedNode id)
  let below ← ask fun g => ofModelResult (g.model.subtree node)
  below.forM clearReferences
  editModelWith fun m => m.detach node

end SchemaEditor.Graph
