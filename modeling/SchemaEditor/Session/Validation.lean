import SchemaEditor.Graph.Basic

/-!
# Validation

A validator judges a member after it was changed; what it says is recorded as the state of the
member. `untypedProperties` is a validator that finds the properties which take a type and have
none.
-/

namespace SchemaEditor

/-- One problem of a member. -/
structure Finding where
  node : NodeId
  message : String
  deriving DecidableEq

/-- What is recorded about a member. -/
inductive ValidationState where
  | unknown
  | valid
  | invalid (findings : List Finding)
  deriving DecidableEq

namespace ValidationState

/-- Whether a member was found valid. -/
def isValid : ValidationState → Bool
  | .valid => true
  | _ => false

/-- The problems that were found. -/
def findings : ValidationState → List Finding
  | .invalid findings => findings
  | _ => []

/-- The state of a member with these problems. -/
def ofFindings (findings : List Finding) : ValidationState :=
  if findings.isEmpty then .valid else .invalid findings

end ValidationState

/-- A judge of members. A host whose judgement changes with time sets a new one between actions. -/
abbrev Validator := Graph → FacadeId → ValidationState

namespace Validator

/-- Whether a node is a property that takes a type and has none. -/
def lacksType (n : Node) : Bool :=
  n.kind.isProperty && n.typeRef.isNone &&
    ((Facade.Kind.ofNode? n.kind).bind Facade.Kind.assignable?).any fun allowed =>
      !allowed.isEmpty

/-- Finds the properties of a member that take a type and have none. -/
def untypedProperties : Validator := fun g member =>
  match g.nodeOf member with
  | .error _ => .unknown
  | .ok root =>
    match g.model.subtree root with
    | .error _ => .unknown
    | .ok nodes =>
      .ofFindings <| nodes.filterMap fun id =>
        match g.model.node? id with
        | some n =>
          if lacksType n then some ⟨id, "'" ++ n.name ++ "' has no assigned type"⟩ else none
        | none => none

end Validator

end SchemaEditor
