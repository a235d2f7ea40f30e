import SchemaEditor.Model.Codec
import SchemaEditor.Session.Validation

/-!
# The written form of validation states

A state is a record with the name of the state and, for an invalid member, its findings. The two
fields may stand in either order; other fields are skipped.
-/

namespace SchemaEditor

namespace Finding

/-- The written form of a finding. -/
def toJson (f : Finding) : Json :=
  .obj [("node", f.node.toJson), ("message", .str f.message)]

/-- Reads a finding. -/
def ofJson (j : Json) : Option Finding := do
  let r ← Json.record ["node", "message"] false j
  return ⟨← r.required "node" NodeId.ofJson, ← r.required "message" Json.text⟩

end Finding

namespace ValidationState

/-- The written form of a state. -/
def toJson : ValidationState → Json
  | .unknown => .obj [("state", .str "unknown")]
  | .valid => .obj [("state", .str "valid")]
  | .invalid findings =>
    .obj [("state", .str "invalid"), ("findings", .ofList Finding.toJson findings)]

/-- The content of a state without findings, which may be `null` but nothing else. In a record
that is written as an array it may not be missing. -/
def noFindings (r : Json.Record) : Bool :=
  match r.get? "findings" with
  | none => !r.positional
  | some .null => true
  | some _ => false

/-- Whether the findings come before the state, so that they are read in full before it is known
what they are. -/
def findingsFirst (r : Json.Record) : Bool :=
  !r.positional && (r.entries.head?.any fun e => e.1 = "findings")

/-- Whether findings that come first have no part that is `ill`. -/
def readable (r : Json.Record) : Bool :=
  !findingsFirst r || ((r.get? "findings").any Json.sound)

/-- Reads a state. -/
def ofJson (j : Json) : Option ValidationState := do
  let r ← Json.record ["state", "findings"] false j
  if !readable r then none
  else
    match ← r.required "state" Json.plainChoice with
    | "unknown" => if noFindings r then some .unknown else none
    | "valid" => if noFindings r then some .valid else none
    | "invalid" => (r.required "findings" (Json.list Finding.ofJson)).map .invalid
    | _ => none

end ValidationState

end SchemaEditor
