import SchemaEditor.Model.Codec
import SchemaEditor.Model.KindCodec

/-!
# Models on view

Nodes and libraries as records for whoever looks at a model. A field of a node that has nothing to
say is left out: a reference that is not set, empty texts and lists, and flags at their usual value.
-/

namespace SchemaEditor

namespace Library

/-- The record of a library. -/
def view (id : LibraryId) (l : Library) : Json :=
  .obj [("id", id.toJson), ("name", .str l.name), ("namespace", .str l.uri),
    ("version", l.version.toJson), ("status", l.status.toJson), ("managed", .bool l.managed),
    ("locked_by", .ofOption .str l.lockedBy), ("builtin", .bool l.builtin),
    ("members", .ofList NodeId.toJson l.members)]

end Library

namespace Node

/-- A field that is there only for a reference that is set. -/
def referenceField (name : String) (reference : Option NodeId) : List (String × Json) :=
  reference.toList.map fun id => (name, id.toJson)

/-- A field that is there only under a condition. -/
def fieldIf (condition : Bool) (name : String) (j : Json) : List (String × Json) :=
  if condition then [(name, j)] else []

/-- The record of a node. -/
def view (id : NodeId) (n : Node) : Json :=
  .obj <|
    [("id", id.toJson), ("kind", n.kind.toJson), ("library", n.library.toJson),
      ("name", .str n.name)] ++
    referenceField "owner" n.owner ++ referenceField "type" n.typeRef ++
    referenceField "base" n.base ++ referenceField "contributes_to" n.contributesTo ++
    fieldIf (n.doc ≠ .empty) "doc"
      (.ofList .str [n.doc.description, n.doc.example_, n.doc.deprecation]) ++
    fieldIf (!n.children.isEmpty) "children" (.ofList NodeId.toJson n.children) ++
    fieldIf n.mandatory "mandatory" (.bool true) ++
    fieldIf (!n.attached) "attached" (.bool false)

end Node

namespace Model

/-- The records of the nodes that differ from those of an earlier model at the same place. -/
def nodesSince (m before : Model) : List Json :=
  m.nodes.toList.zipIdx.filterMap fun (n, i) =>
    if before.nodes[i]? = some n then none else some (n.view ⟨i⟩)

/-- The records of the libraries that differ from those of an earlier model at the same place. -/
def librariesSince (m before : Model) : List Json :=
  m.libraries.toList.zipIdx.filterMap fun (l, i) =>
    if before.libraries[i]? = some l then none else some (l.view ⟨i⟩)

/-- The records of all nodes and libraries. -/
def view (m : Model) : Json :=
  .obj [("nodes", .arr (m.nodesSince .empty)), ("libraries", .arr (m.librariesSince .empty))]

end Model

end SchemaEditor
