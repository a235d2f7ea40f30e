import SchemaEditor.Model.Codec
import SchemaEditor.Model.KindCodec
import SchemaEditor.Snapshot.Basic

/-!
# The written form of snapshots

Every record of a snapshot is strict: a field that it does not know is refused. Most fields may be
missing. Writing gives every field.
-/

namespace SchemaEditor

namespace Text.Keyed

/-- Values under texts as an object, in the order of the keys. -/
def toJson {β : Type} (encode : β → Json) (m : Keyed β) : Json :=
  .obj (m.entries.map fun e => (e.1, encode e.2))

/-- Reads the values of one entry. -/
def entryOfJson {β : Type} (read : Json → Option β) (e : String × Json) : Option (String × β) :=
  (read e.2).map (e.1, ·)

/-- Reads values under texts; of several fields with one key the last one counts. -/
def ofJson {β : Type} (read : Json → Option β) : Json → Option (Keyed β)
  | .obj fields => (fields.mapM (entryOfJson read)).map ofList
  | _ => none

end Text.Keyed

namespace Snapshot

/-- An optional text as it is written. -/
def optionalText (s : Option String) : Json := .ofOption .str s

namespace Property

/-- The written form of a property. -/
def toJson (p : Property) : Json :=
  .obj [("kind", p.kind.toJson), ("name", .str p.name), ("type", optionalText p.typeKey),
    ("mandatory", .bool p.mandatory), ("description", .str p.description)]

/-- Reads a property. -/
def ofJson (j : Json) : Option Property := do
  let r ← Json.record ["kind", "name", "type", "mandatory", "description"] true j
  return {
    kind := ← r.required "kind" NodeKind.ofJson
    name := ← r.required "name" Json.text
    typeKey := ← r.optional "type" Json.text
    mandatory := ← r.defaulting "mandatory" false Json.flag
    description := ← r.defaulting "description" "" Json.text }

end Property

namespace Action

/-- The written form of an action. -/
def toJson (a : Action) : Json :=
  .obj [("name", .str a.name), ("request", optionalText a.request),
    ("response", optionalText a.response)]

/-- Reads an action. -/
def ofJson (j : Json) : Option Action := do
  let r ← Json.record ["name", "request", "response"] true j
  return {
    name := ← r.required "name" Json.text
    request := ← r.optional "request" Json.text
    response := ← r.optional "response" Json.text }

end Action

namespace Member

/-- The names of the fields of a member, in order. -/
def fieldNames : List String :=
  ["kind", "name", "key", "description", "type", "base", "contributes_to", "facets", "properties",
    "values", "aliases", "actions"]

/-- The written form of a member. -/
def toJson (m : Member) : Json :=
  .obj [("kind", m.kind.toJson), ("name", .str m.name), ("key", optionalText m.key),
    ("description", .str m.description), ("type", optionalText m.typeKey),
    ("base", optionalText m.baseKey), ("contributes_to", optionalText m.contributesTo),
    ("facets", m.facets.toJson (.ofList Property.toJson)),
    ("properties", .ofList Property.toJson m.properties), ("values", .ofList .str m.values),
    ("aliases", .ofList .str m.aliases), ("actions", .ofList Action.toJson m.actions)]

/-- Reads a member. -/
def ofJson (j : Json) : Option Member := do
  let r ← Json.record fieldNames true j
  return {
    kind := ← r.required "kind" NodeKind.ofJson
    name := ← r.required "name" Json.text
    key := ← r.optional "key" Json.text
    description := ← r.defaulting "description" "" Json.text
    typeKey := ← r.optional "type" Json.text
    baseKey := ← r.optional "base" Json.text
    contributesTo := ← r.optional "contributes_to" Json.text
    facets := ← r.defaulting "facets" .empty (Text.Keyed.ofJson (Json.list Property.ofJson))
    properties := ← r.defaulting "properties" [] (Json.list Property.ofJson)
    values := ← r.defaulting "values" [] (Json.list Json.text)
    aliases := ← r.defaulting "aliases" [] (Json.list Json.text)
    actions := ← r.defaulting "actions" [] (Json.list Action.ofJson) }

end Member

namespace Library

/-- The names of the fields of a library, in order. -/
def fieldNames : List String :=
  ["name", "namespace", "version", "status", "managed", "locked_by", "members"]

/-- The written form of a library. -/
def toJson (l : Library) : Json :=
  .obj [("name", .str l.name), ("namespace", .str l.uri), ("version", l.version.toJson),
    ("status", l.status.toJson), ("managed", .bool l.managed),
    ("locked_by", optionalText l.lockedBy), ("members", .ofList Member.toJson l.members)]

/-- Reads a library. -/
def ofJson (j : Json) : Option Library := do
  let r ← Json.record fieldNames true j
  return {
    name := ← r.required "name" Json.text
    uri := ← r.required "namespace" Json.text
    version := ← r.defaulting "version" .initial Version.ofJson
    status := ← r.defaulting "status" .draft LibraryStatus.ofJson
    managed := ← r.defaulting "managed" false Json.flag
    lockedBy := ← r.optional "locked_by" Json.text
    members := ← r.defaulting "members" [] (Json.list Member.ofJson) }

end Library

/-- The written form of a snapshot. -/
def toJson (s : Snapshot) : Json :=
  .obj [("libraries", .ofList Library.toJson s.libraries)]

/-- Reads a snapshot. -/
def ofJson (j : Json) : Option Snapshot := do
  let r ← Json.record ["libraries"] true j
  return ⟨← r.defaulting "libraries" [] (Json.list Library.ofJson)⟩

end Snapshot

end SchemaEditor
