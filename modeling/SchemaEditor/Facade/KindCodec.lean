import SchemaEditor.Facade.Kind
import SchemaEditor.Model.KindCodec

/-!
# The written form of facade kinds

Members, facets and properties are choices with the kind or role as their content; the other kinds
are written as their names.
-/

namespace SchemaEditor.Facade.Kind

/-- The kinds without content. -/
def plain : List Kind :=
  [.aliasName, .valueLiteral, .resourceAction, .actionRequest, .actionResponse, .paramGroup,
    .parameter]

/-- The name of a kind, its content aside. -/
def name : Kind → String
  | .member _ => "member"
  | .facet _ => "facet"
  | .property _ => "property"
  | .aliasName => "alias"
  | .valueLiteral => "value_literal"
  | .resourceAction => "resource_action"
  | .actionRequest => "action_request"
  | .actionResponse => "action_response"
  | .paramGroup => "param_group"
  | .parameter => "parameter"

/-- The written form of a kind. -/
def toJson : Kind → Json
  | .member kind => .obj [("member", kind.toJson)]
  | .facet role => .obj [("facet", role.toJson)]
  | .property kind => .obj [("property", kind.toJson)]
  | k => .str k.name

/-- Reads a kind. -/
def ofJson (j : Json) : Option Kind :=
  match Json.choice j with
  | some ("member", some kind) => (MemberKind.ofJson kind).map .member
  | some ("facet", some role) => (FacetRole.ofJson role).map .facet
  | some ("property", some kind) => (PropertyKind.ofJson kind).map .property
  | _ => (Json.plainChoice j).bind fun s => plain.find? (·.name == s)

@[simp] theorem ofJson_toJson (k : Kind) : ofJson k.toJson = some k := by
  cases k with
  | member | facet | property => simp [ofJson, toJson, Json.choice]
  | _ => rfl

end SchemaEditor.Facade.Kind
