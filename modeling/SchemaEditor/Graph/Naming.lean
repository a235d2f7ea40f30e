import SchemaEditor.Graph.Basic

/-!
# Names and texts of facades

Names, documentation and the mandatory flag. The name of a reference, and of an element whose type
is an object or a facet, follows its type: it cannot be given, and it changes with the name of the
type or of the object around it.
-/

namespace SchemaEditor

namespace Model

/-- The name that a facade of a kind takes from a type; none if its name does not follow it. -/
def followedName? (m : Model) (user : Facade.Kind) (provider : NodeId) :
    Except Error (Option String) :=
  match user.property? with
  | none => .ok none
  | some property => do
    let name ← m.nodeName provider
    if property.profile.naming = .fromType then
      return some (Naming.referenceName name property.isAttribute)
    else
      let n ← m.node provider
      let controls := ((Facade.Kind.ofNode? n.kind).bind Facade.Kind.providerClass?).any
        ProviderClass.controlsName
      return if property = .element ∧ controls = true then some (Text.upperFirst name) else none

/-- The derived names of the children of a node. -/
def childNames (m : Model) (id : NodeId) : Except Error (List String) := do
  (← m.node id).children.mapM m.nodeName

end Model

/-- A text that documents a node. -/
inductive DocField where
  | description
  | sample
  | deprecation
  deriving DecidableEq

namespace DocField

/-- The text of a field. -/
def get (field : DocField) (d : Documentation) : String :=
  match field with
  | .description => d.description
  | .sample => d.example_
  | .deprecation => d.deprecation

/-- Replaces the text of a field. -/
def set (field : DocField) (text : String) (d : Documentation) : Documentation :=
  match field with
  | .description => { d with description := text }
  | .sample => { d with example_ := text }
  | .deprecation => { d with deprecation := text }

end DocField

namespace Graph

/-- The derived name of a facade. -/
def name (g : Graph) (id : FacadeId) : Except Error String := do
  ofModelResult (g.model.nodeName (← g.nodeOf id))

/-- Whether the name of a facade follows the type it has. -/
def nameFollowsType (g : Graph) (id : FacadeId) : Except Error Bool := do
  match g.usage.provider? ⟨← g.nodeOf id, .type⟩ with
  | none => return false
  | some provider =>
    return (← ofModelResult (g.model.followedName? (← g.kind id) provider)).isSome

/-- The rule for names that are given to a facade; refused while its name is derived. -/
def givenNameRule (g : Graph) (id : FacadeId) : Except Error Naming.Rule := do
  match (← g.kind id).naming? with
  | none | some .fromType => throw (.mismatch id .derivedName)
  | some rule => if ← g.nameFollowsType id then throw (.mismatch id .derivedName) else return rule

/-- Renames one user of a type if its name follows the type. -/
def renameUser (provider : NodeId) (r : Usage.Reference) : Edit PUnit := do
  if r.slot = .type then
    let n ← ask fun g => ofModelResult (g.model.node r.user)
    match Facade.Kind.ofNode? n.kind with
    | none => return
    | some kind =>
      match ← ask fun g => ofModelResult (g.model.followedName? kind provider) with
      | none => return
      | some name => editModel fun m => m.setName r.user name

/-- Renames the users of a type whose names follow it. -/
def renameUsers (provider : NodeId) : Edit PUnit := do
  let g ← get
  (g.usage.usersOf provider).forM (renameUser provider)

/-- Renames the users whose names follow a node or one of its facets. -/
def propagateName (node : NodeId) : Edit PUnit := do
  let g ← get
  let n ← ask fun g => ofModelResult (g.model.node node)
  let facets := n.children.filter fun c => (g.model.node? c).any fun child => child.kind.isFacet
  (node :: facets).forM renameUsers

/-- Renames a facade under the rule of its kind and gives the name that it has now. -/
def setName (id : FacadeId) (name : String) : Edit String := do
  let node ← ask (·.attachedNode id)
  let rule ← ask (·.givenNameRule id)
  let trimmed := Text.trim name
  if trimmed = "" then throw (.mismatch id .emptyName)
  let applied := rule.apply trimmed
  editModel fun m => m.setName node applied
  propagateName node
  return applied

/-- A documentation text of a facade. -/
def documentation (g : Graph) (id : FacadeId) (field : DocField) : Except Error String := do
  return field.get (← g.content id).doc

/-- Replaces a documentation text of a facade. -/
def setDocumentation (id : FacadeId) (field : DocField) (text : String) : Edit PUnit := do
  let node ← ask (·.attachedNode id)
  editModel fun m => m.modifyDoc node (field.set text)

/-- Whether a facade is mandatory. -/
def isMandatory (g : Graph) (id : FacadeId) : Except Error Bool := do
  return (← g.content id).mandatory

/-- Says whether a property is mandatory. -/
def setMandatory (id : FacadeId) (mandatory : Bool) : Edit PUnit := do
  let node ← ask (·.attachedNode id)
  if !(← ask (·.kind id)).isProperty then throw (.mismatch id .notAProperty)
  editModel fun m => m.setMandatory node mandatory

end Graph

end SchemaEditor
