import SchemaEditor.Json.Decode
import SchemaEditor.Model.Basic

/-!
# The written form of the parts of a model

Ids are plain numbers, versions and statuses texts, documentation a record of texts that may all be
missing.
-/

namespace SchemaEditor

namespace NodeId

/-- The written form of an id. -/
def toJson (id : NodeId) : Json := .nat id.index

/-- Reads an id. -/
def ofJson (j : Json) : Option NodeId := (Json.natBelow idRange j).map NodeId.mk

end NodeId

namespace FacadeId

/-- The written form of an id. -/
def toJson (id : FacadeId) : Json := .nat id.index

/-- Reads an id. -/
def ofJson (j : Json) : Option FacadeId := (Json.natBelow idRange j).map FacadeId.mk

end FacadeId

namespace LibraryId

/-- The written form of an id. -/
def toJson (id : LibraryId) : Json := .nat id.index

end LibraryId

namespace Version

/-- The written form of a version. -/
def toJson (v : Version) : Json := .str v.text

/-- Reads a version. -/
def ofJson (j : Json) : Option Version := (Json.text j).bind parse?

end Version

namespace LibraryStatus

/-- All statuses. -/
def all : List LibraryStatus := [.draft, .underReview, .final, .obsolete]

/-- The name of a status. -/
def name : LibraryStatus → String
  | .draft => "draft"
  | .underReview => "under_review"
  | .final => "final"
  | .obsolete => "obsolete"

/-- The status with a name. -/
def ofName? (s : String) : Option LibraryStatus := all.find? (·.name == s)

/-- The written form of a status. -/
def toJson (s : LibraryStatus) : Json := .str s.name

/-- Reads a status. -/
def ofJson (j : Json) : Option LibraryStatus := (Json.plainChoice j).bind ofName?

@[simp] theorem ofJson_toJson (s : LibraryStatus) : ofJson s.toJson = some s := by
  cases s <;> rfl

end LibraryStatus

namespace Documentation

/-- The written form of documentation. -/
def toJson (d : Documentation) : Json :=
  .obj [("description", .str d.description), ("example", .str d.example_),
    ("deprecation", .str d.deprecation)]

/-- Reads documentation. -/
def ofJson (j : Json) : Option Documentation := do
  let r ← Json.record ["description", "example", "deprecation"] false j
  let description ← r.defaulting "description" "" Json.text
  let sample ← r.defaulting "example" "" Json.text
  let deprecation ← r.defaulting "deprecation" "" Json.text
  return ⟨description, sample, deprecation⟩

@[simp] theorem ofJson_toJson (d : Documentation) : ofJson d.toJson = some d := by
  cases d
  rfl

end Documentation

end SchemaEditor
