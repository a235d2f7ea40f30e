import SchemaEditor.Event.Basic
import SchemaEditor.Model.Codec
import SchemaEditor.Time.Timestamp
import SchemaEditor.Uuid

/-!
# The written form of events

A published event is written down with an identity and a time. Its detail is a record whose field
`type` says which other fields it has; that field may stand anywhere, and other fields are skipped.
-/

namespace SchemaEditor

namespace ViewGroup

/-- The written form of a view group. -/
def toJson (g : ViewGroup) : Json := .str g.text

/-- Reads a view group. -/
def ofJson (j : Json) : Option ViewGroup :=
  (Json.text j).bind fun s => (parse s).toOption

end ViewGroup

namespace EventKind

/-- The written form of a kind of event. -/
def toJson (k : EventKind) : Json := .str k.name

/-- Reads a kind of event. -/
def ofJson (j : Json) : Option EventKind := (Json.plainChoice j).bind ofName?

@[simp] theorem ofJson_toJson (k : EventKind) : ofJson k.toJson = some k := by
  simp [ofJson, toJson, Json.plainChoice, Json.choice]

end EventKind

namespace EventDetail

/-- The numbers below this one are counts. -/
def countRange : Nat := UInt64.size

/-- The written form of a detail. -/
def toJson : EventDetail → Json
  | .nothing => .obj [("type", .str "none")]
  | .lock group engaged =>
    .obj [("type", .str "lock"), ("group", group.toJson), ("engaged", .bool engaged)]
  | .renamed before after =>
    .obj [("type", .str "renamed"), ("from", .str before), ("to", .str after)]
  | .validation valid findings =>
    .obj [("type", .str "validation"), ("valid", .bool valid), ("findings", .nat findings)]

/-- The tag of a detail and the rest of its record. -/
def tagged : Json → Option (String × Json)
  | .obj fields =>
    match fields.filter (·.1 = "type") with
    | [(_, .str tag)] => some (tag, .obj (fields.filter (·.1 ≠ "type")))
    | _ => none
  | .arr (.str tag :: items) => some (tag, .arr items)
  | _ => none

/-- Reads the fields of a lock. -/
def lockOfJson (j : Json) : Option EventDetail := do
  let r ← Json.record ["group", "engaged"] false j
  return .lock (← r.required "group" ViewGroup.ofJson) (← r.required "engaged" Json.flag)

/-- Reads the fields of a rename. -/
def renamedOfJson (j : Json) : Option EventDetail := do
  let r ← Json.record ["from", "to"] false j
  return .renamed (← r.required "from" Json.text) (← r.required "to" Json.text)

/-- Reads the fields of a validation. -/
def validationOfJson (j : Json) : Option EventDetail := do
  let r ← Json.record ["valid", "findings"] false j
  return .validation (← r.required "valid" Json.flag)
    (← r.required "findings" (Json.natBelow countRange))

/-- Reads a detail without fields, which may only come with fields to skip. -/
def nothingOfJson : Json → Option EventDetail
  | .obj _ | .arr [] => some .nothing
  | _ => none

/-- Reads a detail. The whole record is looked at, so no part of it may be `ill`. -/
def ofJson (j : Json) : Option EventDetail :=
  if j.sound then
    match tagged j with
    | some ("none", rest) => nothingOfJson rest
    | some ("lock", rest) => lockOfJson rest
    | some ("renamed", rest) => renamedOfJson rest
    | some ("validation", rest) => validationOfJson rest
    | _ => none
  else none

end EventDetail

/-- An event as it is written down. -/
structure EventRecord where
  id : Uuid
  event : Event
  timestamp : Timestamp
  deriving DecidableEq

namespace EventRecord

/-- The names of the fields of an event, in order. -/
def fieldNames : List String :=
  ["id", "kind", "subject", "target", "detail", "replayed", "timestamp"]

/-- The written form of an event. -/
def toJson (r : EventRecord) : Json :=
  .obj [("id", .str r.id.text), ("kind", r.event.kind.toJson),
    ("subject", .ofOption FacadeId.toJson r.event.subject),
    ("target", .ofOption FacadeId.toJson r.event.target), ("detail", r.event.detail.toJson),
    ("replayed", .bool r.event.replayed), ("timestamp", .str r.timestamp.text)]

/-- Reads an event. -/
def ofJson (j : Json) : Option EventRecord := do
  let r ← Json.record fieldNames false j
  let id ← r.required "id" fun j => (Json.text j).bind Uuid.parse?
  let kind ← r.required "kind" EventKind.ofJson
  let subject ← r.named "subject" FacadeId.ofJson
  let target ← r.named "target" FacadeId.ofJson
  let detail ← r.defaulting "detail" .nothing EventDetail.ofJson
  let replayed ← r.defaulting "replayed" false Json.flag
  let timestamp ← r.required "timestamp" fun j => (Json.text j).bind Timestamp.parse?
  return ⟨id, ⟨kind, subject, target, detail, replayed⟩, timestamp⟩

end EventRecord

end SchemaEditor
