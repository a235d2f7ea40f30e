import SchemaEditor.Json.Decode
import SchemaEditor.Model.Kind

/-!
# The written form of kinds

A kind is written as its name; a kind with a role is a choice with the name of the role as its
content. Reading a written kind gives it back.
-/

namespace SchemaEditor

namespace FacetRole

/-- The written form of a role. -/
def toJson (r : FacetRole) : Json := .str r.name

/-- Reads a role. -/
def ofJson (j : Json) : Option FacetRole := (Json.plainChoice j).bind ofName?

@[simp] theorem ofJson_toJson (r : FacetRole) : ofJson r.toJson = some r := by
  simp [ofJson, toJson, Json.plainChoice, Json.choice]

end FacetRole

namespace ContributionRole

/-- The written form of a role. -/
def toJson (r : ContributionRole) : Json := .str r.name

/-- Reads a role. -/
def ofJson (j : Json) : Option ContributionRole := (Json.plainChoice j).bind ofName?

@[simp] theorem ofJson_toJson (r : ContributionRole) : ofJson r.toJson = some r := by
  simp [ofJson, toJson, Json.plainChoice, Json.choice]

end ContributionRole

namespace PropertyKind

/-- The written form of a kind of property. -/
def toJson (k : PropertyKind) : Json := .str k.name

/-- Reads a kind of property. -/
def ofJson (j : Json) : Option PropertyKind := (Json.plainChoice j).bind ofName?

@[simp] theorem ofJson_toJson (k : PropertyKind) : ofJson k.toJson = some k := by
  simp [ofJson, toJson, Json.plainChoice, Json.choice]

end PropertyKind

namespace MemberKind

/-- The written form of a kind of member. -/
def toJson : MemberKind → Json
  | .contextualFacet role => .obj [("contextual_facet", role.toJson)]
  | k => .str k.name

/-- Reads a kind of member. -/
def ofJson (j : Json) : Option MemberKind :=
  match Json.choice j with
  | some ("contextual_facet", some role) => (ContributionRole.ofJson role).map .contextualFacet
  | _ => (Json.plainChoice j).bind fun s => plain.find? (·.name == s)

@[simp] theorem ofJson_toJson (k : MemberKind) : ofJson k.toJson = some k := by
  cases k with
  | contextualFacet role => simp [ofJson, toJson, Json.choice]
  | _ => rfl

end MemberKind

namespace NodeKind

/-- The written form of a kind of node. -/
def toJson : NodeKind → Json
  | .member (.contextualFacet role) => .obj [("contextual_facet", role.toJson)]
  | .facet role => .obj [("facet", role.toJson)]
  | k => .str k.name

/-- Reads a kind of node. -/
def ofJson (j : Json) : Option NodeKind :=
  match Json.choice j with
  | some ("contextual_facet", some role) =>
    (ContributionRole.ofJson role).map fun r => .member (.contextualFacet r)
  | some ("facet", some role) => (FacetRole.ofJson role).map .facet
  | _ => (Json.plainChoice j).bind fun s => plain.find? (·.name == s)

@[simp] theorem ofJson_toJson (k : NodeKind) : ofJson k.toJson = some k := by
  cases k with
  | member k =>
    cases k with
    | contextualFacet role => simp [ofJson, toJson, Json.choice]
    | _ => rfl
  | facet role => simp [ofJson, toJson, Json.choice]
  | property k => cases k <;> rfl
  | _ => rfl

end NodeKind

end SchemaEditor
