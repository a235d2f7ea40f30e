import SchemaEditor.Model.Fingerprint
import SchemaEditor.Proofs.Model.Detach
import SchemaEditor.Proofs.Model.Lookup
import SchemaEditor.Proofs.Text.Numerals
import SchemaEditor.Proofs.Text.Separated
import Mathlib.Data.List.Infix
import Mathlib.Data.List.Nodup
import Mathlib.Data.Set.Function

/-!
# What a fingerprint tells

The line of a node is a record of twelve texts, and no separator is masked inside them. Where no
text contains the separator behind it (`Node.Legible`), lines are words of a uniquely decodable
code, so that the bytes that are hashed tell the attached nodes and what they hold. Where one does,
they need not: the three texts that document a node are separated by a bar, which each of them may
contain.
-/

namespace SchemaEditor

open InformationTheory (UniquelyDecodable)
open Text (Field)

/-! ### Texts in a line -/

namespace Text

variable {c : Char} {sep : List Char} {words : List (List Char)} {s t : String}

/-- A list with separators between its words, after one more separator. -/
theorem append_intercalate (h : words ≠ []) :
    sep ++ sep.intercalate words = words.flatMap (sep ++ ·) := by
  induction words with
  | nil => exact absurd rfl h
  | cons w words ih =>
    cases words with
    | nil => simp
    | cons v words =>
      rw [List.intercalate_cons_cons, List.flatMap_cons, ← ih (List.cons_ne_nil v words)]
      simp

theorem not_mem_intercalate (hsep : c ∉ sep) (hwords : ∀ w ∈ words, c ∉ w) :
    c ∉ sep.intercalate words := by
  cases words with
  | nil => simp
  | cons w words =>
    intro h
    have hmem : c ∈ sep ++ sep.intercalate (w :: words) := List.mem_append_right _ h
    rw [append_intercalate (List.cons_ne_nil w words)] at hmem
    obtain ⟨v, hv, hc⟩ := List.mem_flatMap.mp hmem
    exact (List.mem_append.mp hc).elim hsep (hwords v hv)

theorem toList_loop (bytes : ByteArray) (i : Nat) (read : List UInt8) :
    ByteArray.toList.loop bytes i read = read.reverse ++ bytes.data.toList.drop i := by
  fun_induction ByteArray.toList.loop bytes i read with
  | case1 i read hi ih =>
    have hdata : i < bytes.data.size := hi
    have hi' : i < bytes.data.toList.length := by simpa using hdata
    have hget : bytes.get! i = bytes.data.toList[i] := getElem!_pos bytes.data i hdata
    rw [ih, List.reverse_cons, List.append_assoc, List.singleton_append, hget,
      ← List.drop_eq_getElem_cons]
  | case2 i read hi =>
    have hi' : ¬ i < bytes.data.size := hi
    rw [List.drop_eq_nil_of_le (by simpa using hi'), List.append_nil]

/-- A text is determined by its bytes. -/
theorem utf8_injective (h : s.toUTF8.toList = t.toUTF8.toList) : s = t := by
  have hdata : s.toByteArray.data.toList = t.toByteArray.data.toList := by
    simpa [String.toUTF8, ByteArray.toList, toList_loop] using h
  exact String.toByteArray_inj.mp (ByteArray.ext (Array.toList_inj.mp hdata))

end Text

namespace NodeId

variable {id id' : NodeId}

/-- Ids are the same if their positions are, as they are written. -/
theorem eq_of_ofNat_index (h : Text.Decimal.ofNat id.index = Text.Decimal.ofNat id'.index) :
    id = id' := by
  cases id
  cases id'
  exact congrArg NodeId.mk (Text.Decimal.ofNat_injective h)

theorem text_injective (h : id.text = id'.text) : id = id' :=
  eq_of_ofNat_index ((String.append_right_inj _).mp h)

end NodeId

namespace NodeKind

/-- All kinds. -/
def every : List NodeKind :=
  plain ++ FacetRole.all.map .facet ++ ContributionRole.all.map (.member ∘ .contextualFacet)

theorem mem_every (k : NodeKind) : k ∈ every := by
  cases k with
  | member k =>
    cases k with
    | contextualFacet role => cases role <;> decide
    | _ => decide
  | facet role => cases role <;> decide
  | property k => cases k <;> decide
  | _ => decide

theorem label_injective {k k' : NodeKind} (h : k.label = k'.label) : k = k' := by
  have hnodup : (every.map label).Nodup := by decide +kernel
  exact List.inj_on_of_nodup_map hnodup (mem_every k) (mem_every k') h

theorem space_not_mem_label (k : NodeKind) : ' ' ∉ k.label.toList := by
  have hall : ∀ k ∈ every, ' ' ∉ k.label.toList := by decide +kernel
  exact hall k (mem_every k)

end NodeKind

namespace Model

variable {id id' : NodeId} {ids ids' : List NodeId} {o o' : Option NodeId} {c : Char}

theorem not_mem_idText (hc : c ∉ "NodeId()".toList) (hdigit : c.isDigit = false) :
    c ∉ (idText id).toList := by
  have hindex := Text.Decimal.not_mem_ofNat hdigit id.index
  simp_all [idText]

theorem idText_injective (h : idText id = idText id') : id = id' :=
  NodeId.eq_of_ofNat_index ((String.append_right_inj _).mp ((String.append_left_inj _).mp h))

theorem not_mem_optionText (hc : c ∉ "Some(NodeId())None".toList) (hdigit : c.isDigit = false) :
    c ∉ (optionText o).toList := by
  cases o with
  | none => simp_all [optionText]
  | some id =>
    have hid : c ∉ (idText id).toList := not_mem_idText (by simp_all) hdigit
    simp_all [optionText]

theorem optionText_some_ne (id : NodeId) : optionText (some id) ≠ optionText none := by
  intro h
  have hfirst := congrArg (fun s => s.toList.head?) h
  simp [optionText] at hfirst

theorem optionText_injective (h : optionText o = optionText o') : o = o' := by
  cases o with
  | none =>
    cases o' with
    | none => rfl
    | some id => exact absurd h.symm (optionText_some_ne id)
  | some id =>
    cases o' with
    | none => exact absurd h (optionText_some_ne id)
    | some id' =>
      have hid := (String.append_right_inj _).mp ((String.append_left_inj _).mp h)
      exact congrArg some (idText_injective hid)

/-- An id in a list, after the comma in front of it, as a field that its bracket ends. -/
def idField (id : NodeId) : Field := ⟨", NodeId(" ++ Text.Decimal.ofNat id.index, ")"⟩

theorem idField_ended (id : NodeId) : (idField id).Ended := by
  have hindex := Text.Decimal.not_mem_ofNat (c := ')') rfl id.index
  exact Field.ended_of_not_mem (c := ')') (w := []) (by simp) (by simp) (by simp [hindex])

/-- A list of ids after one more comma. -/
theorem append_intercalate_idText (h : ids ≠ []) :
    ", ".toList ++ (", ".intercalate (ids.map idText)).toList =
      (ids.map fun id => (idField id).chars).flatten := by
  rw [String.toList_intercalate, Text.append_intercalate (by simpa using h)]
  simp [List.flatMap, Function.comp_def, idField, idText, Field.chars]

theorem idField_chars_injective : Function.Injective fun id => (idField id).chars := by
  intro id id' h
  have htext := List.append_cancel_right h
  simp only [idField, String.toList_inj] at htext
  exact NodeId.eq_of_ofNat_index ((String.append_right_inj _).mp htext)

theorem intercalate_idText_ne (id : NodeId) (ids : List NodeId) :
    ", ".intercalate ((id :: ids).map idText) ≠ ", ".intercalate ([].map idText) := by
  intro h
  have hfirst := append_intercalate_idText (List.cons_ne_nil id ids)
  rw [h] at hfirst
  have hlength := congrArg List.length hfirst
  simp [idField, Field.chars] at hlength

theorem listText_injective (h : listText ids = listText ids') : ids = ids' := by
  have hjoined := (String.append_right_inj _).mp ((String.append_left_inj _).mp h)
  cases ids with
  | nil =>
    cases ids' with
    | nil => rfl
    | cons id ids' => exact absurd hjoined.symm (intercalate_idText_ne id ids')
  | cons id ids =>
    cases ids' with
    | nil => exact absurd hjoined (intercalate_idText_ne id ids)
    | cons id' ids' =>
      -- With one more comma in front, a list is a run of records that a bracket ends.
      have hflat := congrArg (fun s => ", ".toList ++ s.toList) hjoined
      simp only [append_intercalate_idText (List.cons_ne_nil _ _)] at hflat
      have hrecords : ∀ ids : List NodeId, ∀ word ∈ ids.map fun id => (idField id).chars,
          word ∈ Field.records [")"] := by
        intro ids word hword
        obtain ⟨id, -, rfl⟩ := List.mem_map.mp hword
        exact ⟨[idField id], rfl, by simpa using idField_ended id, by simp⟩
      have hwords := Field.uniquelyDecodable_records (List.cons_ne_nil ")" []) _ _
        (hrecords _) (hrecords _) hflat
      exact List.map_injective_iff.mpr idField_chars_injective hwords

end Model

/-! ### Lines of nodes -/

namespace Node

/-- No text of the node contains the separator that stands behind it in the line of the node. -/
structure Legible (n : Node) : Prop where
  name : ¬ " owner=".toList <:+: n.name.toList
  description : '|' ∉ n.doc.description.toList
  example_ : '|' ∉ n.doc.example_.toList
  deprecation : ¬ " children=".toList <:+: n.doc.deprecation.toList

theorem legible_iff {n : Node} : n.Legible ↔ ¬ " owner=".toList <:+: n.name.toList ∧
    '|' ∉ n.doc.description.toList ∧ '|' ∉ n.doc.example_.toList ∧
    ¬ " children=".toList <:+: n.doc.deprecation.toList :=
  ⟨fun ⟨hname, hdescription, hexample, hdeprecation⟩ =>
      ⟨hname, hdescription, hexample, hdeprecation⟩,
    fun ⟨hname, hdescription, hexample, hdeprecation⟩ =>
      ⟨hname, hdescription, hexample, hdeprecation⟩⟩

instance (n : Node) : Decidable n.Legible := decidable_of_iff _ legible_iff.symm

/-- Two nodes hold the same, the library apart. -/
structure Agrees (n n' : Node) : Prop where
  kind : n.kind = n'.kind
  name : n.name = n'.name
  owner : n.owner = n'.owner
  typeRef : n.typeRef = n'.typeRef
  base : n.base = n'.base
  contributesTo : n.contributesTo = n'.contributesTo
  mandatory : n.mandatory = n'.mandatory
  description : n.doc.description = n'.doc.description
  example_ : n.doc.example_ = n'.doc.example_
  deprecation : n.doc.deprecation = n'.doc.deprecation
  children : n.children = n'.children

end Node

namespace Model

variable {m m' : Model} {id id' : NodeId} {n n' : Node} {c : Char}

/-- The separators of a line, with the line feed behind it. -/
def lineSeparators : List String :=
  [" ", " ", " owner=", " type=", " base=", " contrib=", " m=", " doc=", "|", "|", " children=",
    "\n"]

/-- The line of a node as fields. -/
def lineFields (id : NodeId) (n : Node) : List Field :=
  [⟨id.text, " "⟩, ⟨n.kind.label, " "⟩, ⟨n.name, " owner="⟩, ⟨optionText n.owner, " type="⟩,
    ⟨optionText n.typeRef, " base="⟩, ⟨optionText n.base, " contrib="⟩,
    ⟨optionText n.contributesTo, " m="⟩, ⟨if n.mandatory then "true" else "false", " doc="⟩,
    ⟨n.doc.description, "|"⟩, ⟨n.doc.example_, "|"⟩, ⟨n.doc.deprecation, " children="⟩,
    ⟨listText n.children, "\n"⟩]

theorem lineFields_separators (id : NodeId) (n : Node) :
    (lineFields id n).map Field.separator = lineSeparators := rfl

theorem lineFields_chars (id : NodeId) (n : Node) :
    (lineFields id n).flatMap Field.chars = (nodeLine id n ++ "\n").toList := by
  unfold lineFields nodeLine
  simp only [Field.chars_mk, List.flatMap_cons, List.flatMap_nil, String.toList_append,
    List.append_assoc, List.append_nil]

theorem lineFields_injective (h : lineFields id n = lineFields id' n') :
    id = id' ∧ n.Agrees n' := by
  simp only [lineFields, List.cons.injEq, Field.mk.injEq, and_true] at h
  obtain ⟨hid, hkind, hname, howner, htype, hbase, hcontributes, hmandatory, hdescription,
    hexample, hdeprecation, hchildren⟩ := h
  have hflag : n.mandatory = n'.mandatory := by
    revert hmandatory
    cases n.mandatory <;> cases n'.mandatory <;> decide
  exact ⟨NodeId.text_injective hid, NodeKind.label_injective hkind, hname,
    optionText_injective howner, optionText_injective htype, optionText_injective hbase,
    optionText_injective hcontributes, hflag, hdescription, hexample, hdeprecation,
    listText_injective hchildren⟩

theorem not_mem_flag (hc : c ∉ "truefalse".toList) (b : Bool) :
    c ∉ (if b then "true" else "false").toList := by
  cases b <;> simp_all

theorem not_mem_listText (hc : c ∉ "[NodeId(), ]".toList) (hdigit : c.isDigit = false)
    (ids : List NodeId) : c ∉ (listText ids).toList := by
  have hid : ∀ word ∈ (ids.map idText).map String.toList, c ∉ word := by
    intro word hword
    simp only [List.map_map, List.mem_map, Function.comp_apply] at hword
    obtain ⟨id, -, rfl⟩ := hword
    exact not_mem_idText (by simp_all) hdigit
  have hcomma : c ∉ ", ".toList := by simp_all
  have hjoined := Text.not_mem_intercalate hcomma hid
  simp_all [listText]

/-- In the line of a legible node every text ends at its separator. -/
theorem lineFields_ended (h : n.Legible) (id : NodeId) : ∀ f ∈ lineFields id n, f.Ended := by
  have hid : ' ' ∉ id.text.toList := by
    have hindex := Text.Decimal.not_mem_ofNat (c := ' ') rfl id.index
    simp [NodeId.text, hindex]
  have hoption (o : Option NodeId) : ' ' ∉ (optionText o).toList :=
    not_mem_optionText (by decide) rfl
  intro f hf
  simp only [lineFields, List.mem_cons, List.not_mem_nil, or_false] at hf
  obtain rfl | rfl | rfl | rfl | rfl | rfl | rfl | rfl | rfl | rfl | rfl | rfl := hf
  · exact Field.ended_of_not_mem (w := []) rfl (by decide) hid
  · exact Field.ended_of_not_mem (w := []) rfl (by decide) n.kind.space_not_mem_label
  · exact ⟨' ', "owner=".toList, by simp, by decide, h.name⟩
  · exact Field.ended_of_not_mem (w := "type=".toList) rfl (by decide) (hoption n.owner)
  · exact Field.ended_of_not_mem (w := "base=".toList) rfl (by decide) (hoption n.typeRef)
  · exact Field.ended_of_not_mem (w := "contrib=".toList) rfl (by decide) (hoption n.base)
  · exact Field.ended_of_not_mem (w := "m=".toList) rfl (by decide) (hoption n.contributesTo)
  · exact Field.ended_of_not_mem (w := "doc=".toList) rfl (by decide)
      (not_mem_flag (by decide) n.mandatory)
  · exact Field.ended_of_not_mem (w := []) rfl (by decide) h.description
  · exact Field.ended_of_not_mem (w := []) rfl (by decide) h.example_
  · exact ⟨' ', "children=".toList, by simp, by decide, h.deprecation⟩
  · exact Field.ended_of_not_mem (w := []) rfl (by decide) (not_mem_listText (by decide) rfl _)

/-! ### Lines of models -/

theorem mem_lines_iff {line : String} :
    line ∈ m.lines ↔ ∃ id n, m.node? id = some n ∧ n.attached = true ∧ nodeLine id n = line := by
  rw [lines, List.mem_filterMap]
  constructor
  · rintro ⟨id, -, hline⟩
    cases hn : m.node? id with
    | none => simp [hn] at hline
    | some n =>
      simp only [hn, Option.ite_none_right_eq_some, Option.some.injEq] at hline
      exact ⟨id, n, hn, hline⟩
  · rintro ⟨id, n, hn, ha, rfl⟩
    exact ⟨id, mem_nodeIds.mpr (lt_of_node? hn), by simp [hn, ha]⟩

/-- The bytes that are hashed for a model. -/
def hashed (m : Model) : List UInt8 := (Digest.fingerprintText m.lines).toUTF8.toList

/-- Every attached node is legible. -/
def Legible (m : Model) : Prop := ∀ id n, m.node? id = some n → n.attached = true → n.Legible

theorem legible_iff : m.Legible ↔ ∀ n ∈ m.nodes.toList, n.attached = true → n.Legible := by
  constructor
  · intro h n hn ha
    obtain ⟨i, hi⟩ := List.mem_iff_getElem?.mp hn
    exact h ⟨i⟩ n (by simpa [node?] using hi) ha
  · intro h id n hn ha
    exact h n (Array.mem_toList_iff.mpr (Array.mem_of_getElem? hn)) ha

instance (m : Model) : Decidable m.Legible := decidable_of_iff _ legible_iff.symm

theorem Legible.mem_records (h : m.Legible) {line : String} (hline : line ∈ m.lines) :
    (line ++ "\n").toList ∈ Field.records lineSeparators := by
  obtain ⟨id, n, hn, ha, rfl⟩ := mem_lines_iff.mp hline
  exact ⟨lineFields id n, lineFields_separators id n, lineFields_ended (h id n hn ha) id,
    lineFields_chars id n⟩

/-- Lines that are records can be told from the text that is hashed for them. -/
theorem perm_of_fingerprintText_eq {lines lines' : List String}
    (h : ∀ line ∈ lines, (line ++ "\n").toList ∈ Field.records lineSeparators)
    (h' : ∀ line ∈ lines', (line ++ "\n").toList ∈ Field.records lineSeparators)
    (htext : Digest.fingerprintText lines = Digest.fingerprintText lines') :
    lines.Perm lines' := by
  have hflat := congrArg String.toList htext
  simp only [Digest.fingerprintText, String.toList_join, List.flatMap, List.map_map] at hflat
  have hcode : UniquelyDecodable (Field.records lineSeparators) :=
    Field.uniquelyDecodable_records (List.cons_ne_nil _ _)
  have hwords := hcode _ _ (by simpa using h) (by simpa using h') hflat
  have hinjective : Function.Injective (String.toList ∘ fun line => line ++ "\n") :=
    fun line line' hline => (String.append_left_inj _).mp (String.toList_inj.mp hline)
  have hsorted := List.map_injective_iff.mpr hinjective hwords
  exact (List.mergeSort_perm ..).symm.trans (.trans (.of_eq hsorted) (List.mergeSort_perm ..))

/-- Two models whose nodes are legible have the same lines if the same bytes are hashed. -/
theorem Legible.lines_perm (h : m.Legible) (h' : m'.Legible) (hbytes : m.hashed = m'.hashed) :
    m.lines.Perm m'.lines :=
  perm_of_fingerprintText_eq (fun _ => h.mem_records) (fun _ => h'.mem_records)
    (Text.utf8_injective hbytes)

/-- A line that two models have shows a node that both of them have. -/
theorem exists_agrees_of_mem_lines (h : n.Legible) (h' : m'.Legible)
    (hline : nodeLine id n ∈ m'.lines) :
    ∃ n', m'.node? id = some n' ∧ n'.attached = true ∧ n.Agrees n' := by
  obtain ⟨id', n', hn', ha', heq⟩ := mem_lines_iff.mp hline
  have hchars : (lineFields id n).flatMap Field.chars ++ [] =
      (lineFields id' n').flatMap Field.chars ++ [] := by
    rw [lineFields_chars, lineFields_chars, heq]
  have hfields := Field.eq_of_written (lineFields_ended h id)
    (lineFields_ended (h' id' n' hn' ha') id') rfl hchars
  obtain ⟨rfl, hagrees⟩ := lineFields_injective hfields
  exact ⟨n', hn', ha', hagrees⟩

end Model

end SchemaEditor
