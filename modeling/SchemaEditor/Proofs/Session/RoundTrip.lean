import SchemaEditor.Event.Codec
import SchemaEditor.Proofs.Json.Decode
import SchemaEditor.Proofs.Json.RoundTrip
import SchemaEditor.Proofs.Time.RoundTrip
import SchemaEditor.Proofs.Uuid
import SchemaEditor.Session.Codec

/-!
# Events and validation states that were written

Reading inverts writing for every event and every validation state whose numbers fit into their
types. The tag of a detail or of a state may stand anywhere among the fields of its record: a detail
is read after its tag was taken out, and a state from a record in which fields are looked up.
-/

namespace SchemaEditor

open Json (Inverts Writable record_obj)

/-! ### Parts of events -/

theorem Json.soundFields_append (xs ys : List (String × Json)) :
    soundFields (xs ++ ys) = (soundFields xs && soundFields ys) := by
  induction xs with
  | nil => simp [soundFields]
  | cons x xs ih => simp [soundFields, ih, Bool.and_assoc]

theorem NodeId.ofJson_toJson {id : NodeId} (h : id.index < idRange) :
    NodeId.ofJson id.toJson = some id := by
  rw [NodeId.ofJson, NodeId.toJson, Json.natBelow_nat h]
  rfl

theorem FacadeId.ofJson_toJson {id : FacadeId} (h : id.index < idRange) :
    FacadeId.ofJson id.toJson = some id := by
  rw [FacadeId.ofJson, FacadeId.toJson, Json.natBelow_nat h]
  rfl

theorem ViewGroup.parse_text (g : ViewGroup) : parse g.text = .ok g := by
  unfold ViewGroup.parse
  rw [dif_neg g.nonempty]
  split
  · next c hc =>
    have hforbidden := List.find?_some hc
    simp [g.chars c (List.mem_of_find?_eq_some hc)] at hforbidden
  · rfl

theorem ViewGroup.inverts : Inverts ViewGroup.toJson ViewGroup.ofJson := fun g => by
  rw [ViewGroup.toJson, ViewGroup.ofJson, Json.text, Option.bind_some, g.parse_text]
  rfl

namespace EventDetail

/-- The count of a detail fits into its type. -/
def InRange : EventDetail → Prop
  | .validation _ findings => findings < countRange
  | _ => True

theorem ofJson_toJson {d : EventDetail} (h : d.InRange) : ofJson d.toJson = some d := by
  cases d with
  | nothing => rfl
  | lock group engaged =>
    have hrecord : Json.record ["group", "engaged"] false
        (.obj [("group", group.toJson), ("engaged", .bool engaged)]) = some ⟨_, false⟩ :=
      record_obj false rfl (by decide)
    have hgroup := ViewGroup.inverts group
    show lockOfJson (.obj [("group", group.toJson), ("engaged", .bool engaged)]) = _
    rw [lockOfJson, hrecord]
    simp [Json.Record.required, Json.flag, hgroup]
  | renamed before after => rfl
  | validation valid findings =>
    have hrecord : Json.record ["valid", "findings"] false
        (.obj [("valid", .bool valid), ("findings", .nat findings)]) = some ⟨_, false⟩ :=
      record_obj false rfl (by decide)
    have hfindings : Json.natBelow countRange (.nat findings) = some findings :=
      Json.natBelow_nat h
    show validationOfJson (.obj [("valid", .bool valid), ("findings", .nat findings)]) = _
    rw [validationOfJson, hrecord]
    simp [Json.Record.required, Json.flag, hfindings]

/-- A record with several tags, or none, has no tag. -/
theorem tagged_eq_none {fields : List (String × Json)}
    (h : (fields.filter (·.1 = "type")).length ≠ 1) : tagged (.obj fields) = none := by
  simp only [tagged]
  split
  · next hone => exact absurd (congrArg List.length hone) h
  · rfl

/-- A tag counts as if it stood in front of the other fields. -/
theorem tagged_middle (before after : List (String × Json)) (tag : Json) :
    tagged (.obj (before ++ ("type", tag) :: after)) =
      tagged (.obj (("type", tag) :: (before ++ after))) := by
  have hrest : (before ++ ("type", tag) :: after).filter (·.1 ≠ "type") =
      (("type", tag) :: (before ++ after)).filter (·.1 ≠ "type") := by
    simp
  have hfirst : (("type", tag) :: (before ++ after)).filter (·.1 = "type") = ("type", tag) ::
      (before.filter (·.1 = "type") ++ after.filter (·.1 = "type")) := by
    simp
  have hmiddle : (before ++ ("type", tag) :: after).filter (·.1 = "type") =
      before.filter (·.1 = "type") ++ ("type", tag) :: after.filter (·.1 = "type") := by
    simp
  -- With a tag among the fields in front, neither record has just one.
  cases hbefore : before.filter (·.1 = "type") with
  | nil => simp only [tagged, hrest, hfirst, hmiddle, hbefore, List.nil_append]
  | cons f fs =>
    rw [tagged_eq_none (by simp [hmiddle, hbefore]), tagged_eq_none (by simp [hfirst, hbefore])]

theorem ofJson_tag_middle (before after : List (String × Json)) (tag : Json) :
    ofJson (.obj (before ++ ("type", tag) :: after)) =
      ofJson (.obj (("type", tag) :: (before ++ after))) := by
  have hsound : Json.sound (.obj (before ++ ("type", tag) :: after)) =
      Json.sound (.obj (("type", tag) :: (before ++ after))) := by
    simp [Json.sound, Json.soundFields, Json.soundFields_append, Bool.and_left_comm]
  rw [ofJson, ofJson, hsound, tagged_middle]

end EventDetail

/-! ### Events -/

namespace EventRecord

/-- The numbers of an event fit into their types, and its time is one. -/
structure InRange (r : EventRecord) : Prop where
  subject : ∀ id, r.event.subject = some id → id.index < idRange
  target : ∀ id, r.event.target = some id → id.index < idRange
  detail : r.event.detail.InRange
  timestamp : r.timestamp.isValid = true

theorem ofJson_toJson {r : EventRecord} (h : r.InRange) : ofJson r.toJson = some r := by
  have hrecord : Json.record fieldNames false r.toJson = some ⟨_, false⟩ :=
    record_obj false rfl (by decide)
  have hfacade (o : Option FacadeId) (ho : ∀ id, o = some id → id.index < idRange) :
      Json.nullable FacadeId.ofJson (.ofOption FacadeId.toJson o) = some o :=
    Json.nullable_ofOption (fun id hid => FacadeId.ofJson_toJson (ho id hid)) fun _ => nofun
  have hsubject := hfacade _ h.subject
  have htarget := hfacade _ h.target
  have hdetail := EventDetail.ofJson_toJson h.detail
  have htimestamp := Timestamp.parse?_text h.timestamp
  have hid := r.id.parse?_text
  rw [ofJson, hrecord]
  simp [Json.Record.required, Json.Record.defaulting, Json.Record.named, Json.text, Json.flag, hid,
    hsubject, htarget, hdetail, htimestamp]

end EventRecord

/-! ### Validation states -/

theorem Finding.ofJson_toJson {f : Finding} (h : f.node.index < idRange) :
    Finding.ofJson f.toJson = some f := by
  have hrecord : Json.record ["node", "message"] false f.toJson = some ⟨_, false⟩ :=
    record_obj false rfl (by decide)
  have hnode := NodeId.ofJson_toJson h
  rw [Finding.ofJson, hrecord]
  simp [Json.Record.required, Json.text, hnode]

namespace ValidationState

/-- The nodes of the findings fit into their type. -/
def InRange (s : ValidationState) : Prop := ∀ f ∈ s.findings, f.node.index < idRange

/-- Findings that do not come first need not be read before the state is known. -/
theorem readable_state_first (tag : Json) (entries : List (String × Json)) :
    readable ⟨("state", tag) :: entries, false⟩ = true := rfl

theorem ofJson_toJson {s : ValidationState} (h : s.InRange) : ofJson s.toJson = some s := by
  cases s with
  | unknown => rfl
  | valid => rfl
  | invalid findings =>
    have hrecord : Json.record ["state", "findings"] false (toJson (.invalid findings)) =
        some ⟨[("state", .str "invalid"), ("findings", .ofList Finding.toJson findings)], false⟩ :=
      record_obj false rfl (by decide)
    have hfindings : Json.list Finding.ofJson (.ofList Finding.toJson findings) = some findings :=
      Json.list_ofList fun f hf => Finding.ofJson_toJson (h f hf)
    rw [ofJson, hrecord]
    simp [readable_state_first, Json.Record.required, Json.plainChoice, Json.choice, hfindings]

/-- What is read from two records in which the same is found. -/
theorem ofJson_congr {j j' : Json} {r r' : Json.Record}
    (hr : Json.record ["state", "findings"] false j = some r)
    (hr' : Json.record ["state", "findings"] false j' = some r')
    (hget : ∀ name, r.get? name = r'.get? name) (hpositional : r.positional = r'.positional)
    (hreadable : readable r = true) (hreadable' : readable r' = true) : ofJson j = ofJson j' := by
  rw [ofJson, ofJson, hr, hr']
  simp only [Option.bind_eq_bind, Option.bind_some, hreadable, hreadable', Json.Record.required,
    noFindings, hget, hpositional]
  rfl

/-- Findings that come first can be read if they denote a value. -/
theorem readable_of_sound {entries : List (String × Json)}
    (h : ∀ j, entries.head? = some ("findings", j) → j.sound = true) :
    readable ⟨entries, false⟩ = true := by
  cases entries with
  | nil => rfl
  | cons e entries =>
    obtain ⟨name, j⟩ := e
    by_cases hname : name = "findings"
    · subst hname
      simp [readable, h j rfl]
    · simp [readable, findingsFirst, hname]

/-- The state counts as if it stood in front of the other fields, as long as findings in front of it
denote a value. -/
theorem ofJson_tag_middle (before after : List (String × Json)) (tag : Json)
    (hsound : ∀ j, ("findings", j) ∈ before → j.sound = true) :
    ofJson (.obj (before ++ ("state", tag) :: after)) =
      ofJson (.obj (("state", tag) :: (before ++ after))) := by
  let known (fields : List (String × Json)) :=
    fields.filter fun f => ["state", "findings"].contains f.1
  have hmiddle : known (before ++ ("state", tag) :: after) =
      known before ++ ("state", tag) :: known after := by
    simp [known]
  have hfirst : known (("state", tag) :: (before ++ after)) =
      ("state", tag) :: (known before ++ known after) := by
    simp [known]
  have hperm : (known before ++ ("state", tag) :: known after).Perm
      (("state", tag) :: (known before ++ known after)) := List.perm_middle
  have hr := Json.record_lenient ["state", "findings"] (before ++ ("state", tag) :: after)
  have hr' := Json.record_lenient ["state", "findings"] (("state", tag) :: (before ++ after))
  rw [show List.filter _ _ = _ from hmiddle] at hr
  rw [show List.filter _ _ = _ from hfirst] at hr'
  by_cases hnodup : ((known before ++ ("state", tag) :: known after).map (·.1)).Nodup
  · have hnodup' := (hperm.map (·.1)).nodup_iff.mp hnodup
    rw [if_pos hnodup] at hr
    rw [if_pos hnodup'] at hr'
    refine ofJson_congr hr hr' (Json.Record.get?_perm hnodup hperm) rfl (readable_of_sound ?_)
      (readable_state_first tag _)
    intro j hj
    cases hbefore : known before with
    | nil => simp [hbefore] at hj
    | cons e entries =>
      rw [hbefore] at hj
      obtain rfl := Option.some.inj hj
      have hmem : ("findings", j) ∈ known before := hbefore ▸ List.mem_cons_self
      exact hsound j (List.mem_filter.mp hmem).1
  · -- A field that comes twice is refused wherever it stands.
    have hnodup' := mt (hperm.map (·.1)).nodup_iff.mpr hnodup
    rw [if_neg hnodup] at hr
    rw [if_neg hnodup'] at hr'
    rw [ofJson, ofJson, hr, hr']

end ValidationState

/-! ### Texts -/

theorem EventDetail.writable {d : EventDetail} (h : d.InRange) : Writable 1 d.toJson := by
  cases d with
  | nothing => exact .field (.str _) .noFields
  | lock _ _ => exact .field (.str _) <| .field (.str _) <| .field (.bool _) .noFields
  | renamed _ _ => exact .field (.str _) <| .field (.str _) <| .field (.str _) .noFields
  | validation _ _ => exact .field (.str _) <| .field (.bool _) <| .field (.nat h) .noFields

theorem EventRecord.writable {r : EventRecord} (h : r.InRange) : Writable 2 r.toJson := by
  have hfacade (o : Option FacadeId) (ho : ∀ id, o = some id → id.index < idRange) :
      Writable 1 (.ofOption FacadeId.toJson o) :=
    .ofOption fun id hid => .nat (Nat.lt_trans (ho id hid) (by decide))
  exact .field (.str _) <| .field (.str _) <| .field (hfacade _ h.subject) <|
    .field (hfacade _ h.target) <| .field (EventDetail.writable h.detail) <| .field (.bool _) <|
    .field (.str _) .noFields

theorem Finding.writable {f : Finding} (h : f.node.index < idRange) : Writable 1 f.toJson :=
  .field (.nat (Nat.lt_trans h (by decide))) <| .field (.str _) .noFields

theorem ValidationState.writable {s : ValidationState} (h : s.InRange) : Writable 3 s.toJson := by
  cases s with
  | unknown => exact .field (.str _) .noFields
  | valid => exact .field (.str _) .noFields
  | invalid findings =>
    have hfindings : Writable 2 (.ofList Finding.toJson findings) :=
      .ofList fun f hf => Finding.writable (h f hf)
    exact .field (.str _) <| .field hfindings .noFields

/-- Every event and every validation state reads back from its written form, be it a value or a
text, and the tag of a detail or of a state may stand anywhere among the fields. Findings in front
of a state have to denote a value, as all parts of a JSON value do. -/
theorem events_and_states_read_back :
    (∀ r : EventRecord, r.InRange → EventRecord.ofJson r.toJson = some r ∧
      (Json.parse r.toJson.print).bind EventRecord.ofJson = some r) ∧
    (∀ s : ValidationState, s.InRange → ValidationState.ofJson s.toJson = some s ∧
      (Json.parse s.toJson.print).bind ValidationState.ofJson = some s) ∧
    (∀ before after tag, EventDetail.ofJson (.obj (before ++ ("type", tag) :: after)) =
      EventDetail.ofJson (.obj (("type", tag) :: (before ++ after)))) ∧
    ∀ before after tag, (∀ j, ("findings", j) ∈ before → j.sound = true) →
      ValidationState.ofJson (.obj (before ++ ("state", tag) :: after)) =
        ValidationState.ofJson (.obj (("state", tag) :: (before ++ after))) := by
  refine ⟨fun r h => ⟨EventRecord.ofJson_toJson h, ?_⟩,
    fun s h => ⟨ValidationState.ofJson_toJson h, ?_⟩, EventDetail.ofJson_tag_middle,
    ValidationState.ofJson_tag_middle⟩
  · rw [((EventRecord.writable h).mono (by decide)).parse_print]
    exact EventRecord.ofJson_toJson h
  · rw [((ValidationState.writable h).mono (by decide)).parse_print]
    exact ValidationState.ofJson_toJson h

/-- A lock of the view group of members is engaged. -/
def lockEngaged : EventRecord where
  id := ⟨"0f8fad5bd9cb469fa16570867728950e".toList, rfl, by simp [isLowerHex]⟩
  event :=
    { Event.lock ⟨"members", by decide, by simp [isViewGroupChar]⟩ true with subject := some ⟨7⟩ }
  timestamp := ⟨2024, 2, 29, 12, 34, 56, 0⟩

/-- A member with one finding. -/
def untypedElement : ValidationState := .invalid [⟨⟨4⟩, "Total has no type"⟩]

/-- The lock reads back, and the finding does, also if it stands in front of the state. -/
theorem events_and_states_read_back_lockEngaged :
    (Json.parse lockEngaged.toJson.print).bind EventRecord.ofJson = some lockEngaged ∧
    (Json.parse untypedElement.toJson.print).bind ValidationState.ofJson = some untypedElement ∧
    ValidationState.ofJson (.obj [("findings", .ofList Finding.toJson untypedElement.findings),
      ("state", .str "invalid")]) = some untypedElement := by
  obtain ⟨hevent, hstate, -, htag⟩ := events_and_states_read_back
  have hlock : lockEngaged.InRange :=
    { subject := fun id hid => by
        obtain rfl := Option.some.inj hid
        decide
      target := nofun
      detail := trivial
      timestamp := by decide }
  have hfinding : untypedElement.InRange := fun f hf => by
    obtain rfl := List.mem_singleton.mp hf
    decide
  have hsound : ∀ j, ("findings", j) ∈
      [("findings", Json.ofList Finding.toJson untypedElement.findings)] → j.sound = true := by
    intro j hj
    obtain rfl := (Prod.mk.inj (List.mem_singleton.mp hj)).2
    decide
  refine ⟨(hevent _ hlock).2, (hstate _ hfinding).2, ?_⟩
  exact (htag _ [] (.str "invalid") hsound).trans (hstate _ hfinding).1

end SchemaEditor
