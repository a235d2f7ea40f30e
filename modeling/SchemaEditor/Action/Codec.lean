import SchemaEditor.Action.Manager
import SchemaEditor.Json.Decode

/-!
# The written form of actions, managers and the terms of versioning

All of them are names; only the manager of minor versions has a content.
-/

namespace SchemaEditor

namespace Editability

/-- The written form of a degree. -/
def toJson (e : Editability) : Json := .str e.name

/-- Reads a degree. -/
def ofJson (j : Json) : Option Editability := (Json.plainChoice j).bind ofName?

@[simp] theorem ofJson_toJson (e : Editability) : ofJson e.toJson = some e := by
  cases e <;> rfl

end Editability

namespace ChangeClass

/-- The written form of a class. -/
def toJson (c : ChangeClass) : Json := .str c.name

/-- Reads a class. -/
def ofJson (j : Json) : Option ChangeClass := (Json.plainChoice j).bind ofName?

@[simp] theorem ofJson_toJson (c : ChangeClass) : ofJson c.toJson = some c := by
  cases c <;> rfl

end ChangeClass

namespace Action

/-- The written form of an action. -/
def toJson (a : Action) : Json := .str a.name

/-- Reads an action. -/
def ofJson (j : Json) : Option Action := (Json.plainChoice j).bind ofName?

@[simp] theorem ofJson_toJson (a : Action) : ofJson a.toJson = some a := by
  simp [ofJson, toJson, Json.plainChoice, Json.choice]

end Action

namespace Manager

/-- The written form of a manager. -/
def toJson : Manager → Json
  | .full => .str "full"
  | .readOnly => .str "read_only"
  | .minorVersionOnly additions =>
    .obj [("minor_version_only", .obj [("additions", .bool additions)])]

/-- Reads the content of the manager of minor versions. -/
def additionsOfJson (j : Json) : Option Bool := do
  (← Json.record ["additions"] false j).required "additions" Json.flag

/-- Reads a manager. -/
def ofJson (j : Json) : Option Manager :=
  match Json.choice j with
  | some ("minor_version_only", some content) => (additionsOfJson content).map .minorVersionOnly
  | _ =>
    match Json.plainChoice j with
    | some "full" => some .full
    | some "read_only" => some .readOnly
    | _ => none

@[simp] theorem ofJson_toJson (m : Manager) : ofJson m.toJson = some m := by
  cases m <;> rfl

end Manager

end SchemaEditor
