import SchemaEditor.Event.Codec
import SchemaEditor.Event.History

/-!
# Events and histories on view

Records of events as they are posted, before they get an identity and a time, and of the history.
-/

namespace SchemaEditor

/-- The record of an event; its kind is given by the hyphenated name. -/
def Event.view (e : Event) : Json :=
  .obj [("kind", .str e.kind.hyphenated), ("subject", .ofOption FacadeId.toJson e.subject),
    ("target", .ofOption FacadeId.toJson e.target), ("detail", e.detail.toJson),
    ("replayed", .bool e.replayed)]

/-- The fields of the record of a history. -/
def History.viewFields (h : History) : List (String × Json) :=
  [("current", .ofOption FacadeId.toJson h.current?),
    ("back", .ofList FacadeId.toJson h.backEntries),
    ("forward", .ofList FacadeId.toJson h.forwardEntries), ("can_back", .bool h.canGoBack),
    ("can_forward", .bool h.canGoForward), ("limit", .nat h.limit)]

end SchemaEditor
