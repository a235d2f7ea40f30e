import SchemaEditor.Model.Kind
import SchemaEditor.Naming

/-!
# Kinds of facades

A facade is the handle through which a node is edited. Its kind decides how it is named, which
types it may be assigned, and which kind of provider it is when it is itself assigned as a type.
`Facade.Kind.ofNode?` gives the kind of facade of every kind of node but one.
-/

namespace SchemaEditor

/-- What a facade is when it is assigned as a type. -/
inductive ProviderClass where
  | simple
  | enumeration
  | valueWithAttributes
  | coreObject
  | businessObject
  | choiceObject
  | facet
  | contextualFacet
  deriving DecidableEq

namespace ProviderClass

/-- The name of a class. -/
def name : ProviderClass → String
  | .simple => "simple"
  | .enumeration => "enumeration"
  | .valueWithAttributes => "value_with_attributes"
  | .coreObject => "core_object"
  | .businessObject => "business_object"
  | .choiceObject => "choice_object"
  | .facet => "facet"
  | .contextualFacet => "contextual_facet"

/-- The classes of simple values. -/
def values : List ProviderClass := [.simple, .enumeration, .valueWithAttributes]

/-- The classes of objects. -/
def objects : List ProviderClass := [.coreObject, .businessObject, .choiceObject]

/-- The classes of facets. -/
def facets : List ProviderClass := [.facet, .contextualFacet]

/-- Whether an element takes its name from a provider of this class. -/
def controlsName (c : ProviderClass) : Bool := (objects ++ facets).contains c

end ProviderClass

/-- How the properties of one kind behave. -/
structure PropertyProfile where
  label : String
  icon : String
  naming : Naming.Rule
  /-- The name of a property that is added without one. -/
  defaultName : String
  /-- The classes of types that may be assigned. -/
  providers : List ProviderClass
  /-- Whether a property of this kind is mandatory from the start. -/
  required : Bool

namespace PropertyKind

/-- How the properties of a kind behave. -/
def profile : PropertyKind → PropertyProfile
  | .plainAttribute =>
    { label := "Attribute", icon := "attribute", naming := .lowerFirst
      defaultName := "newAttribute", providers := ProviderClass.values, required := false }
  | .idAttribute =>
    { label := "ID Attribute", icon := "id-attribute", naming := .lowerFirst
      defaultName := "id", providers := [.simple], required := true }
  | .attributeRef =>
    { label := "Attribute Reference", icon := "attribute-ref", naming := .fromType
      defaultName := "newRef", providers := [.coreObject, .businessObject], required := false }
  | .element =>
    { label := "Element", icon := "element", naming := .upperFirst
      defaultName := "NewElement"
      providers := ProviderClass.values ++ ProviderClass.objects ++ ProviderClass.facets
      required := false }
  | .elementRef =>
    { label := "Element Reference", icon := "element-ref", naming := .fromType
      defaultName := "NewRef", providers := ProviderClass.objects, required := false }
  | .indicator =>
    { label := "Indicator", icon := "indicator", naming := .indicator
      defaultName := "newInd", providers := [], required := false }
  | .indicatorElement =>
    { label := "Indicator Element", icon := "indicator-element", naming := .indicator
      defaultName := "newElementInd", providers := [], required := false }

/-- Whether properties of a kind are attributes. -/
def isAttribute : PropertyKind → Bool
  | .plainAttribute | .idAttribute | .attributeRef => true
  | _ => false

end PropertyKind

namespace MemberKind

/-- What a member is when it is assigned as a type. -/
def providerClass? : MemberKind → Option ProviderClass
  | .simpleType | .xsdSimple => some .simple
  | .closedEnumeration | .openEnumeration => some .enumeration
  | .valueWithAttributes => some .valueWithAttributes
  | .coreObject => some .coreObject
  | .businessObject => some .businessObject
  | .choiceObject => some .choiceObject
  | .contextualFacet _ => some .contextualFacet
  | .resource => none

/-- Whether a member may extend another one of its kind. -/
def supportsBase : MemberKind → Bool
  | .businessObject | .coreObject | .choiceObject | .closedEnumeration | .openEnumeration => true
  | _ => false

/-- Whether a member may carry aliases. -/
def supportsAliases : MemberKind → Bool
  | .businessObject | .coreObject | .choiceObject => true
  | _ => false

/-- Whether a member is an enumeration. -/
def isEnumeration : MemberKind → Bool
  | .closedEnumeration | .openEnumeration => true
  | _ => false

/-- A kind as it is shown to people. -/
def label : MemberKind → String
  | .businessObject => "Business Object"
  | .coreObject => "Core Object"
  | .choiceObject => "Choice Object"
  | .valueWithAttributes => "Value With Attributes"
  | .closedEnumeration => "Closed Enumeration"
  | .openEnumeration => "Open Enumeration"
  | .simpleType => "Simple Type"
  | .xsdSimple => "XSD Simple Type"
  | .contextualFacet .custom => "Custom Facet"
  | .contextualFacet .query => "Query Facet"
  | .contextualFacet .update => "Update Facet"
  | .contextualFacet .choice => "Choice Facet"
  | .resource => "Resource"

end MemberKind

namespace Facade

/-- Categories of facades. -/
inductive Kind where
  | member (kind : MemberKind)
  | facet (role : FacetRole)
  | property (kind : PropertyKind)
  | aliasName
  | valueLiteral
  | resourceAction
  | actionRequest
  | actionResponse
  | paramGroup
  | parameter
  deriving DecidableEq

namespace Kind

/-- The kind of facade of a kind of node; extension points have none. -/
def ofNode? : NodeKind → Option Kind
  | .member kind => some (.member kind)
  | .facet role => some (.facet role)
  | .extensionPoint => none
  | .property kind => some (.property kind)
  | .aliasName => some .aliasName
  | .enumValue => some .valueLiteral
  | .resourceAction => some .resourceAction
  | .actionRequest => some .actionRequest
  | .actionResponse => some .actionResponse
  | .paramGroup => some .paramGroup
  | .parameter => some .parameter

/-- What a facade is when it is assigned as a type. -/
def providerClass? : Kind → Option ProviderClass
  | .member kind => kind.providerClass?
  | .facet _ => some .facet
  | _ => none

/-- The classes of types a facade may be assigned; none if it does not take a type. -/
def assignable? : Kind → Option (List ProviderClass)
  | .property kind => some kind.profile.providers
  | .member .simpleType => some [.simple]
  | .member .valueWithAttributes => some ProviderClass.values
  | .member .resource => some [.businessObject]
  | .actionRequest | .actionResponse => some (ProviderClass.objects ++ ProviderClass.facets)
  | _ => none

/-- The rule for names that are given to a facade; none if its name is derived. -/
def naming? : Kind → Option Naming.Rule
  | .member _ | .aliasName | .paramGroup => some .upperFirst
  | .property kind => some kind.profile.naming
  | .valueLiteral | .resourceAction | .parameter => some .verbatim
  | .facet _ | .actionRequest | .actionResponse => none

/-- The name of the icon of a facade. -/
def icon : Kind → String
  | .member (.contextualFacet _) => "contextual-facet"
  | .member _ => "member"
  | .facet _ => "facet"
  | .property kind => kind.profile.icon
  | .aliasName => "alias"
  | .valueLiteral => "value"
  | .resourceAction => "action"
  | .actionRequest => "request"
  | .actionResponse => "response"
  | .paramGroup => "param-group"
  | .parameter => "parameter"

/-- A kind as it is shown to people. -/
def label : Kind → String
  | .member kind => kind.label
  | .facet _ => "Facet"
  | .property kind => kind.profile.label
  | .aliasName => "Alias"
  | .valueLiteral => "Value"
  | .resourceAction => "Action"
  | .actionRequest => "Request"
  | .actionResponse => "Response"
  | .paramGroup => "Parameter Group"
  | .parameter => "Parameter"

/-- Whether a facade is a member. -/
def isMember : Kind → Bool
  | .member _ => true
  | _ => false

/-- The kind of member that a facade is. -/
def member? : Kind → Option MemberKind
  | .member kind => some kind
  | _ => none

/-- The kind of property that a facade is. -/
def property? : Kind → Option PropertyKind
  | .property kind => some kind
  | _ => none

/-- Whether a facade is a member that may extend another one. -/
def supportsBase (k : Kind) : Bool := k.member?.any MemberKind.supportsBase

/-- Whether a facade is a member that may carry aliases. -/
def supportsAliases (k : Kind) : Bool := k.member?.any MemberKind.supportsAliases

/-- Whether a facade is an enumeration. -/
def isEnumeration (k : Kind) : Bool := k.member?.any MemberKind.isEnumeration

/-- Whether a facade is a property. -/
def isProperty (k : Kind) : Bool := k.property?.isSome

end Kind

end Facade

end SchemaEditor
