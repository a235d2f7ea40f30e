import SchemaEditor.Config.Basic
import SchemaEditor.Json.Decode
import SchemaEditor.Toml.Decode
import SchemaEditor.Toml.Document
import SchemaEditor.Toml.Printer

/-!
# The written forms of configurations

A configuration file is a TOML document; settings that are not set are left out of it. In JSON
every field is written. Both readers refuse fields that they do not know.
-/

namespace SchemaEditor

namespace ActionSettings

/-- The names of the fields. -/
def fieldNames : List String := ["minor_version_additions"]

/-- The form in JSON. -/
def toJson (s : ActionSettings) : Json :=
  .obj [("minor_version_additions", .ofOption .bool s.minorVersionAdditions)]

/-- Reads the form in JSON. -/
def ofJson (j : Json) : Option ActionSettings := do
  let r ← Json.record fieldNames true j
  return ⟨← r.optional "minor_version_additions" Json.flag⟩

/-- The fields in TOML. -/
def toFields (s : ActionSettings) : List (String × Toml) :=
  s.minorVersionAdditions.toList.map fun b => ("minor_version_additions", .bool b)

/-- Reads the form in TOML. -/
def ofToml (t : Toml) : Option ActionSettings := do
  let fields ← Toml.record fieldNames t
  return ⟨← Toml.optional fields "minor_version_additions" Toml.flag⟩

end ActionSettings

namespace ViewGroupSettings

/-- The names of the fields. -/
def fieldNames : List String := ["locked"]

/-- The form in JSON. -/
def toJson (s : ViewGroupSettings) : Json := .obj [("locked", .ofList .str s.locked)]

/-- Reads the form in JSON. -/
def ofJson (j : Json) : Option ViewGroupSettings := do
  let r ← Json.record fieldNames true j
  return ⟨← r.defaulting "locked" [] (Json.list Json.text)⟩

/-- The fields in TOML. -/
def toFields (s : ViewGroupSettings) : List (String × Toml) :=
  [("locked", .arr (s.locked.map .str))]

/-- Reads the form in TOML. -/
def ofToml (t : Toml) : Option ViewGroupSettings := do
  let fields ← Toml.record fieldNames t
  return ⟨(← Toml.optional fields "locked" (Toml.list Toml.text)).getD []⟩

end ViewGroupSettings

namespace Config

/-- The names of the fields, in order. -/
def fieldNames : List String := ["user", "history_limit", "log_filter", "actions", "view_groups"]

/-- The limits of the navigation history are the numbers below this one. -/
def limitRange : Nat := UInt64.size

/-- The form in JSON. -/
def toJson (c : Config) : Json :=
  .obj [("user", .ofOption .str c.user), ("history_limit", .ofOption .nat c.historyLimit),
    ("log_filter", .ofOption .str c.logFilter),
    ("actions", .ofOption ActionSettings.toJson c.actions),
    ("view_groups", .ofOption ViewGroupSettings.toJson c.viewGroups)]

/-- Reads the form in JSON. -/
def ofJson (j : Json) : Option Config := do
  let r ← Json.record fieldNames true j
  return {
    user := ← r.optional "user" Json.text
    historyLimit := ← r.optional "history_limit" (Json.natBelow limitRange)
    logFilter := ← r.optional "log_filter" Json.text
    actions := ← r.optional "actions" ActionSettings.ofJson
    viewGroups := ← r.optional "view_groups" ViewGroupSettings.ofJson }

/-- A field that is there only if it is set. -/
def setField {α : Type} (name : String) (encode : α → Toml) (a : Option α) :
    List (String × Toml) :=
  a.toList.map fun a => (name, encode a)

/-- The fields of the document. -/
def toFields (c : Config) : List (String × Toml) :=
  setField "user" .str c.user ++
    setField "history_limit" (fun n : Nat => .int n) c.historyLimit ++
    setField "log_filter" .str c.logFilter ++
    setField "actions" (fun s : ActionSettings => .table s.toFields) c.actions ++
    setField "view_groups" (fun s : ViewGroupSettings => .table s.toFields) c.viewGroups

/-- Reads the fields of a document. -/
def ofFields (fields : List (String × Toml)) : Option Config := do
  let fields ← Toml.strict fieldNames fields
  return {
    user := ← Toml.optional fields "user" Toml.text
    historyLimit := ← Toml.optional fields "history_limit" Toml.natural
    logFilter := ← Toml.optional fields "log_filter" Toml.text
    actions := ← Toml.optional fields "actions" ActionSettings.ofToml
    viewGroups := ← Toml.optional fields "view_groups" ViewGroupSettings.ofToml }

/-- The text of a configuration file. The limit has to be an integer of TOML. -/
def print (c : Config) : Except Fault String :=
  if c.historyLimit.any fun n => !Toml.isIntegerRange n then .error .largeHistoryLimit
  else .ok (Toml.print c.toFields)

/-- Reads the text of a configuration file. -/
def parse (text : String) : Option Config := (Toml.parse text).bind ofFields

end Config

end SchemaEditor
