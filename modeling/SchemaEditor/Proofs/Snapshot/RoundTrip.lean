import SchemaEditor.Proofs.Json.Decode
import SchemaEditor.Proofs.Json.RoundTrip
import SchemaEditor.Proofs.Version
import SchemaEditor.Snapshot.Codec

/-!
# Snapshots that were written

Reading inverts writing, record by record: a version is found again behind its points, the entries
of a map are already in order, and every field of a record is written and found under its name.
Written snapshots are nested far less deeply than a text may be, so their texts read back too.
-/

namespace SchemaEditor

open Json (Inverts Writable record_obj)

/-! ### Versions -/

namespace Version

theorem inverts : Inverts toJson ofJson := parse?_text

end Version

namespace Text.Keyed

variable {β : Type}

theorem inverts {encode : β → Json} {read : Json → Option β} (h : Inverts encode read) :
    Inverts (toJson encode) (ofJson read) := by
  intro m
  have hentries : (m.entries.map fun e => (e.1, encode e.2)).mapM (entryOfJson read) =
      some m.entries := by
    induction m.entries with
    | nil => rfl
    | cons e es ih => simp [entryOfJson, h e.2, ih]
  rw [toJson, ofJson, hentries, Option.map_some, ofList_entries]

end Text.Keyed

/-! ### Records -/

namespace Snapshot

theorem inverts_optionalText : Inverts optionalText (Json.nullable Json.text) :=
  Inverts.text.nullable fun _ => nofun

theorem Property.inverts : Inverts Property.toJson Property.ofJson := by
  intro p
  have hrecord : Json.record ["kind", "name", "type", "mandatory", "description"] true p.toJson =
      some ⟨_, false⟩ := record_obj true rfl (by decide)
  have htype := inverts_optionalText p.typeKey
  rw [Property.ofJson, hrecord]
  simp [Json.Record.required, Json.Record.defaulting, Json.Record.optional, Json.text, Json.flag,
    htype]

theorem Action.inverts : Inverts Action.toJson Action.ofJson := by
  intro a
  have hrecord : Json.record ["name", "request", "response"] true a.toJson = some ⟨_, false⟩ :=
    record_obj true rfl (by decide)
  have hrequest := inverts_optionalText a.request
  have hresponse := inverts_optionalText a.response
  rw [Action.ofJson, hrecord]
  simp [Json.Record.required, Json.Record.defaulting, Json.Record.optional, Json.text, hrequest,
    hresponse]

theorem Member.inverts : Inverts Member.toJson Member.ofJson := by
  intro m
  have hrecord : Json.record Member.fieldNames true m.toJson = some ⟨_, false⟩ :=
    record_obj true rfl (by decide)
  have hkey := inverts_optionalText m.key
  have htype := inverts_optionalText m.typeKey
  have hbase := inverts_optionalText m.baseKey
  have hcontributes := inverts_optionalText m.contributesTo
  have hfacets := Text.Keyed.inverts Property.inverts.list m.facets
  have hproperties := Property.inverts.list m.properties
  have hvalues := Inverts.text.list m.values
  have haliases := Inverts.text.list m.aliases
  have hactions := Action.inverts.list m.actions
  rw [Member.ofJson, hrecord]
  simp [Json.Record.required, Json.Record.defaulting, Json.Record.optional, Json.text, hkey, htype,
    hbase, hcontributes, hfacets, hproperties, hvalues, haliases, hactions]

theorem Library.inverts : Inverts Library.toJson Library.ofJson := by
  intro l
  have hrecord : Json.record Library.fieldNames true l.toJson = some ⟨_, false⟩ :=
    record_obj true rfl (by decide)
  have hversion := Version.inverts l.version
  have hlocked := inverts_optionalText l.lockedBy
  have hmembers := Member.inverts.list l.members
  rw [Library.ofJson, hrecord]
  simp [Json.Record.required, Json.Record.defaulting, Json.Record.optional, Json.text, Json.flag,
    hversion, hlocked, hmembers]

theorem inverts : Inverts toJson ofJson := by
  intro s
  have hrecord : Json.record ["libraries"] true s.toJson = some ⟨_, false⟩ :=
    record_obj true rfl (by decide)
  have hlibraries := Library.inverts.list s.libraries
  rw [ofJson, hrecord]
  simp [Json.Record.defaulting, hlibraries]

/-! ### Texts -/

theorem writable_kind (k : NodeKind) : Writable 1 k.toJson := by
  cases k with
  | member kind =>
    cases kind with
    | contextualFacet _ => exact .field (.str _) .noFields
    | _ => exact .str _
  | facet _ => exact .field (.str _) .noFields
  | _ => exact .str _

theorem writable_optionalText {d : Nat} (o : Option String) : Writable d (optionalText o) :=
  .ofOption fun s _ => .str s

theorem Property.writable (p : Property) : Writable 2 p.toJson :=
  .field ((writable_kind p.kind).mono (by decide)) <| .field (.str _) <|
    .field (writable_optionalText _) <| .field (.bool _) <| .field (.str _) .noFields

theorem Action.writable (a : Action) : Writable 1 a.toJson :=
  .field (.str _) <| .field (writable_optionalText _) <| .field (writable_optionalText _) .noFields

theorem Member.writable (m : Member) : Writable 5 m.toJson := by
  have hproperties (ps : List Property) : Writable 3 (.ofList Property.toJson ps) :=
    .ofList fun p _ => p.writable
  have hactions : Writable 2 (.ofList Action.toJson m.actions) := .ofList fun a _ => a.writable
  have htexts (ts : List String) : Writable 1 (.ofList .str ts) := .ofList fun t _ => .str t
  have hfacets : Writable 4 (m.facets.toJson (.ofList Property.toJson)) := by
    refine .obj fun f hf => ?_
    obtain ⟨e, -, rfl⟩ := List.mem_map.mp hf
    exact hproperties e.2
  exact .field ((writable_kind m.kind).mono (by decide)) <| .field (.str _) <|
    .field (writable_optionalText _) <| .field (.str _) <| .field (writable_optionalText _) <|
    .field (writable_optionalText _) <| .field (writable_optionalText _) <| .field hfacets <|
    .field ((hproperties _).mono (by decide)) <| .field ((htexts _).mono (by decide)) <|
    .field ((htexts _).mono (by decide)) <| .field (hactions.mono (by decide)) .noFields

theorem Library.writable (l : Library) : Writable 7 l.toJson := by
  have hmembers : Writable 6 (.ofList Member.toJson l.members) := .ofList fun m _ => m.writable
  exact .field (.str _) <| .field (.str _) <| .field (.str _) <| .field (.str _) <|
    .field (.bool _) <| .field (writable_optionalText _) <| .field hmembers .noFields

theorem writable (s : Snapshot) : Writable 9 s.toJson := by
  have hlibraries : Writable 8 (.ofList Library.toJson s.libraries) :=
    .ofList fun l _ => l.writable
  exact .field hlibraries .noFields

/-- Reads a snapshot from a text. -/
def read? (text : String) : Option Snapshot := (Json.parse text).bind ofJson

/-- The text of a snapshot. -/
def written (s : Snapshot) : String := s.toJson.print

/-- Reads a snapshot from a text and writes it again. -/
def rewritten? (text : String) : Option String := (read? text).map written

theorem read?_written (s : Snapshot) : read? s.written = some s := by
  rw [read?, written, (s.writable.mono (by decide)).parse_print]
  exact inverts s

/-- Every snapshot reads back from its written form, be it a value or a text. So a text that is
accepted can be written again: what is written is read as the same snapshot, and written again it
is the same text. -/
theorem snapshot_reads_back (s : Snapshot) :
    ofJson s.toJson = some s ∧ read? s.written = some s ∧
      ∀ text, read? text = some s →
        ∃ t, rewritten? text = some t ∧ read? t = some s ∧ rewritten? t = some t := by
  have hread := read?_written s
  have hrewritten : rewritten? s.written = some s.written := by
    rw [rewritten?, hread]
    rfl
  refine ⟨inverts s, hread, fun text htext => ⟨s.written, ?_, hread, hrewritten⟩⟩
  rw [rewritten?, htext]
  rfl

/-- A library that is written as the array of its first two fields is read, and written with all
of them from then on. -/
theorem snapshot_reads_back_positional :
    ∃ s t, read? "[[[\"Shop\",\"urn:shop\"]]]" = some s ∧ t ≠ "[[[\"Shop\",\"urn:shop\"]]]" ∧
      rewritten? "[[[\"Shop\",\"urn:shop\"]]]" = some t ∧ read? t = some s ∧
        rewritten? t = some t := by
  have haccepted : (read? "[[[\"Shop\",\"urn:shop\"]]]").isSome = true := by decide +kernel
  have hchanged : (read? "[[[\"Shop\",\"urn:shop\"]]]").map written ≠
      some "[[[\"Shop\",\"urn:shop\"]]]" := by decide +kernel
  obtain ⟨s, hs⟩ := Option.isSome_iff_exists.mp haccepted
  obtain ⟨t, ht, hread, hstable⟩ := (snapshot_reads_back s).2.2 _ hs
  exact ⟨s, t, hs, fun heq => hchanged (ht.trans (congrArg some heq)), ht, hread, hstable⟩

end Snapshot

end SchemaEditor
