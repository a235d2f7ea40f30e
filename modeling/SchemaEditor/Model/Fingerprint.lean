import SchemaEditor.Digest.Fingerprint
import SchemaEditor.Model.Basic

/-!
# The fingerprint of a model

One line for each attached node, with everything that the node holds except its library. Detached
nodes and libraries leave no trace.
-/

namespace SchemaEditor.Model

/-- A node as a line shows it. -/
def idText (id : NodeId) : String := "NodeId(" ++ Text.Decimal.ofNat id.index ++ ")"

/-- An optional node as a line shows it. -/
def optionText : Option NodeId → String
  | some id => "Some(" ++ idText id ++ ")"
  | none => "None"

/-- A list of nodes as a line shows it. -/
def listText (ids : List NodeId) : String := "[" ++ ", ".intercalate (ids.map idText) ++ "]"

/-- The line of a node. -/
def nodeLine (id : NodeId) (n : Node) : String :=
  id.text ++ " " ++ n.kind.label ++ " " ++ n.name ++ " owner=" ++ optionText n.owner ++
    " type=" ++ optionText n.typeRef ++ " base=" ++ optionText n.base ++
    " contrib=" ++ optionText n.contributesTo ++
    " m=" ++ (if n.mandatory then "true" else "false") ++
    " doc=" ++ n.doc.description ++ "|" ++ n.doc.example_ ++ "|" ++ n.doc.deprecation ++
    " children=" ++ listText n.children

/-- The lines of the attached nodes. -/
def lines (m : Model) : List String :=
  m.nodeIds.filterMap fun id =>
    match m.node? id with
    | some n => if n.attached then some (nodeLine id n) else none
    | none => none

/-- The fingerprint of the attached content of a model. -/
def fingerprint (m : Model) : String := Digest.fingerprint m.lines

end SchemaEditor.Model
