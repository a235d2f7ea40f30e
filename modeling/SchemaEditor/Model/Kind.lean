import SchemaEditor.Text.Spelling

/-!
# Kinds of schema elements

The categories of nodes in a model. Members live directly in a library; facets group the
properties of an object; properties are the seven variants of attribute, element and indicator.
Each kind has a name in lower case with underscores, from which its other spellings derive.
-/

namespace SchemaEditor

/-- The role of a standard facet inside its object. -/
inductive FacetRole where
  | id
  | summary
  | detail
  | shared
  deriving DecidableEq

namespace FacetRole

/-- All roles. -/
def all : List FacetRole := [.id, .summary, .detail, .shared]

/-- The name of a role. -/
def name : FacetRole → String
  | .id => "id"
  | .summary => "summary"
  | .detail => "detail"
  | .shared => "shared"

/-- The role with a name. -/
def ofName? (s : String) : Option FacetRole := all.find? (·.name == s)

/-- The last part of the name of a facet in this role. -/
def suffix : FacetRole → String
  | .id => "ID"
  | .summary => "Summary"
  | .detail => "Detail"
  | .shared => "Shared"

@[simp] theorem ofName?_name (r : FacetRole) : ofName? r.name = some r := by
  cases r <;> decide

end FacetRole

/-- The role of a facet that is declared as a member and contributed into another object. -/
inductive ContributionRole where
  | custom
  | query
  | update
  | choice
  deriving DecidableEq

namespace ContributionRole

/-- All roles. -/
def all : List ContributionRole := [.custom, .query, .update, .choice]

/-- The name of a role. -/
def name : ContributionRole → String
  | .custom => "custom"
  | .query => "query"
  | .update => "update"
  | .choice => "choice"

/-- The role with a name. -/
def ofName? (s : String) : Option ContributionRole := all.find? (·.name == s)

@[simp] theorem ofName?_name (r : ContributionRole) : ofName? r.name = some r := by
  cases r <;> decide

end ContributionRole

/-- Categories of library members. -/
inductive MemberKind where
  | businessObject
  | coreObject
  | choiceObject
  | valueWithAttributes
  | closedEnumeration
  | openEnumeration
  | simpleType
  | xsdSimple
  | resource
  | contextualFacet (role : ContributionRole)
  deriving DecidableEq

/-- Categories of properties. -/
inductive PropertyKind where
  | plainAttribute
  | idAttribute
  | attributeRef
  | element
  | elementRef
  | indicator
  | indicatorElement
  deriving DecidableEq

/-- Categories of nodes. -/
inductive NodeKind where
  | member (kind : MemberKind)
  | facet (role : FacetRole)
  /-- A member that only marks a place for extensions and has no facade. -/
  | extensionPoint
  | property (kind : PropertyKind)
  | aliasName
  | enumValue
  | resourceAction
  | actionRequest
  | actionResponse
  | paramGroup
  | parameter
  deriving DecidableEq

namespace MemberKind

/-- The kinds without a role. -/
def plain : List MemberKind :=
  [.businessObject, .coreObject, .choiceObject, .valueWithAttributes, .closedEnumeration,
    .openEnumeration, .simpleType, .xsdSimple, .resource]

/-- The name of a kind, its role aside. -/
def name : MemberKind → String
  | .businessObject => "business_object"
  | .coreObject => "core_object"
  | .choiceObject => "choice_object"
  | .valueWithAttributes => "value_with_attributes"
  | .closedEnumeration => "closed_enumeration"
  | .openEnumeration => "open_enumeration"
  | .simpleType => "simple_type"
  | .xsdSimple => "xsd_simple"
  | .resource => "resource"
  | .contextualFacet _ => "contextual_facet"

/-- The facets that are created together with a member. -/
def standardFacets : MemberKind → List FacetRole
  | .businessObject => [.id, .summary, .detail]
  | .coreObject => [.summary, .detail]
  | .choiceObject => [.shared]
  | _ => []

end MemberKind

namespace PropertyKind

/-- All kinds of properties. -/
def all : List PropertyKind :=
  [.plainAttribute, .idAttribute, .attributeRef, .element, .elementRef, .indicator,
    .indicatorElement]

/-- The name of a kind. -/
def name : PropertyKind → String
  | .plainAttribute => "attribute"
  | .idAttribute => "id_attribute"
  | .attributeRef => "attribute_ref"
  | .element => "element"
  | .elementRef => "element_ref"
  | .indicator => "indicator"
  | .indicatorElement => "indicator_element"

/-- The kind with a name. -/
def ofName? (s : String) : Option PropertyKind := all.find? (·.name == s)

@[simp] theorem ofName?_name (k : PropertyKind) : ofName? k.name = some k := by
  cases k <;> decide

end PropertyKind

namespace NodeKind

/-- The kinds without a role. -/
def plain : List NodeKind :=
  MemberKind.plain.map .member ++ [.extensionPoint] ++ PropertyKind.all.map .property ++
    [.aliasName, .enumValue, .resourceAction, .actionRequest, .actionResponse, .paramGroup, .parameter]

/-- The name of a kind, its role aside. -/
def name : NodeKind → String
  | .member kind => kind.name
  | .facet _ => "facet"
  | .extensionPoint => "extension_point_facet"
  | .property kind => kind.name
  | .aliasName => "alias"
  | .enumValue => "enum_value"
  | .resourceAction => "resource_action"
  | .actionRequest => "action_request"
  | .actionResponse => "action_response"
  | .paramGroup => "param_group"
  | .parameter => "parameter"

/-- The name of the role of a kind that has one. -/
def roleName? : NodeKind → Option String
  | .member (.contextualFacet role) => some role.name
  | .facet role => some role.name
  | _ => none

/-- A kind with its role in capitalised words, as fingerprints and messages show it. -/
def label (k : NodeKind) : String :=
  match k.roleName? with
  | some role => Text.capitalized k.name ++ "(" ++ Text.capitalized role ++ ")"
  | none => Text.capitalized k.name

/-- Whether nodes of this kind live directly in a library. -/
def isMember : NodeKind → Bool
  | .member _ | .extensionPoint => true
  | _ => false

/-- Whether nodes of this kind are properties. -/
def isProperty : NodeKind → Bool
  | .property _ => true
  | _ => false

/-- Whether nodes of this kind are standard facets. -/
def isFacet : NodeKind → Bool
  | .facet _ => true
  | _ => false

/-- The facets that are created together with a node of this kind. -/
def standardFacets : NodeKind → List FacetRole
  | .member kind => kind.standardFacets
  | _ => []

end NodeKind

end SchemaEditor
