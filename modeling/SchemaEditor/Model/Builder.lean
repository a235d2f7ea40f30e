import SchemaEditor.Model.Walk

/-!
# Building models

A builder adds nodes and sets references directly, before anything indexes them. It also keeps the
library of built-in simple types, which it creates when the first of them is asked for.
-/

namespace SchemaEditor

/-- A model under construction. -/
structure Builder where
  model : Model
  /-- The library of built-in types, once there is one. -/
  builtins : Option LibraryId
  deriving DecidableEq

namespace Builder

/-- The builder of the empty model. -/
def empty : Builder := ⟨.empty, none⟩

/-- The namespace of the built-in types. -/
def builtinUri : String := "http://www.w3.org/2001/XMLSchema"

/-- The library of built-in types, final from the start. -/
def builtinLibrary : Library :=
  { Library.draft "XMLSchema" builtinUri with status := .final, builtin := true }

/-- Adds a library. -/
def library (b : Builder) (l : Library) : LibraryId × Builder :=
  let (id, m) := b.model.addLibrary l
  (id, { b with model := m })

/-- The library of built-in types, created if there is none yet. -/
def withBuiltins (b : Builder) : LibraryId × Builder :=
  match b.builtins with
  | some id => (id, b)
  | none =>
    let (id, m) := b.model.addLibrary builtinLibrary
    (id, ⟨m, some id⟩)

/-- The built-in type with a name, created if there is none yet. -/
def xsd (b : Builder) (name : String) : NodeId × Builder :=
  let (library, b) := b.withBuiltins
  match b.model.findMember? library name with
  | some id => (id, b)
  | none =>
    let (id, m) := b.model.appendMember library (.member .xsdSimple) name
    (id, { b with model := m })

/-- Adds a member to a library. -/
def member (b : Builder) (library : LibraryId) (kind : NodeKind) (name : String) :
    Except Model.Error (NodeId × Builder) := do
  let (id, m) ← b.model.addMember library kind name
  return (id, { b with model := m })

/-- Adds a child under any node. -/
def child (b : Builder) (owner : NodeId) (kind : NodeKind) (name : String) :
    Except Model.Error (NodeId × Builder) := do
  let (id, m) ← b.model.addChild owner kind name
  return (id, { b with model := m })

/-- Adds a child to the facet of an object in a role. -/
def property (b : Builder) (member : NodeId) (role : FacetRole) (kind : NodeKind) (name : String) :
    Except Model.Error (NodeId × Builder) :=
  match b.model.facet? member role with
  | some facet => b.child facet kind name
  | none => .error (.missingFacet member role)

/-- Assigns a type. -/
def assign (b : Builder) (user provider : NodeId) : Except Model.Error Builder := do
  let _ ← b.model.node provider
  return { b with model := ← b.model.setTypeRef user (some provider) }

/-- Makes a member extend another one. -/
def extend (b : Builder) (member base : NodeId) : Except Model.Error Builder := do
  let _ ← b.model.node base
  return { b with model := ← b.model.setBase member (some base) }

/-- Makes a member contribute into an object. -/
def contribute (b : Builder) (facet target : NodeId) : Except Model.Error Builder := do
  let _ ← b.model.node target
  return { b with model := ← b.model.setContributesTo facet (some target) }

end Builder

end SchemaEditor
