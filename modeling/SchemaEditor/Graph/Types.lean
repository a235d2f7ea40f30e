import SchemaEditor.Graph.Naming

/-!
# Types and bases of facades

Assigning types, extending members, and asking who uses a provider. Which classes of providers a
kind of user takes is the business of `Facade.Kind.assignable?`; extension joins members of one
kind and never closes a cycle.
-/

namespace SchemaEditor.Graph

/-- Refuses a pair that cannot be joined by a type. -/
def canAssign (g : Graph) (user provider : FacadeId) : Except Error PUnit := do
  let _ ← g.attachedNode user
  let _ ← g.attachedNode provider
  let allowed := ((← g.kind user).assignable?).getD []
  let provided := (← g.kind provider).providerClass?
  if user ≠ provider ∧ provided.any allowed.contains then return
  else throw (.typeMismatch user provider)

/-- Assigns a type and gives the one it replaces. A name that follows the type is set. -/
def assignType (user provider : FacadeId) : Edit (Option NodeId) := do
  ask (·.canAssign user provider)
  let userNode ← ask (·.nodeOf user)
  let providerNode ← ask (·.nodeOf provider)
  let previous ← editUsage fun x m => x.assign m ⟨userNode, .type⟩ providerNode
  let kind ← ask (·.kind user)
  match ← ask fun g => ofModelResult (g.model.followedName? kind providerNode) with
  | none => return previous
  | some name =>
    editModel fun m => m.setName userNode name
    return previous

/-- Clears one reference of a facade and gives the node it pointed at. -/
def clearSlot (id : FacadeId) (slot : Usage.Slot) : Edit (Option NodeId) := do
  let node ← ask (·.attachedNode id)
  editUsage fun x m => x.unassign m ⟨node, slot⟩

/-- The facade that one reference of a facade points at. -/
def slotFacade? (id : FacadeId) (slot : Usage.Slot) : Edit (Option FacadeId) := do
  let node ← ask (·.nodeOf id)
  let g ← get
  match g.usage.provider? ⟨node, slot⟩ with
  | none => return none
  | some provider => return some (← facadeFor provider)

/-- Clears the type of a facade and gives the one it had. -/
def unassignType (user : FacadeId) : Edit (Option NodeId) := clearSlot user .type

/-- The type of a facade. -/
def assignedType? (user : FacadeId) : Edit (Option FacadeId) := slotFacade? user .type

/-- Refuses a pair that cannot be joined by extension. -/
def canExtend (g : Graph) (member base : FacadeId) : Except Error PUnit := do
  let memberNode ← g.attachedNode member
  let baseNode ← g.attachedNode base
  let kind ← g.kind member
  let baseKind ← g.kind base
  if kind ≠ baseKind ∨ kind.supportsBase = false then throw (.typeMismatch member base)
  if memberNode = baseNode ∨ memberNode ∈ g.model.baseChain baseNode then
    throw (.mismatch member .extensionCycle)

/-- Makes a member extend another one and gives the base it had. -/
def setBaseType (member base : FacadeId) : Edit (Option NodeId) := do
  ask (·.canExtend member base)
  let memberNode ← ask (·.nodeOf member)
  let baseNode ← ask (·.nodeOf base)
  editUsage fun x m => x.assign m ⟨memberNode, .base⟩ baseNode

/-- Clears the base of a member and gives the one it had. -/
def clearBaseType (member : FacadeId) : Edit (Option NodeId) := clearSlot member .base

/-- The base of a member. -/
def baseType? (member : FacadeId) : Edit (Option FacadeId) := slotFacade? member .base

/-- The members that contain a user of a provider. -/
def whereUsed (provider : FacadeId) : Edit (List FacadeId) := do
  let node ← ask (·.nodeOf provider)
  let g ← get
  wrapAll (g.usage.whereUsed node)

end SchemaEditor.Graph
