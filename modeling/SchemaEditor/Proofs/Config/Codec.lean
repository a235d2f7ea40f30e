import SchemaEditor.Config.Codec
import SchemaEditor.Proofs.Toml.Document
import SchemaEditor.Text.Keyed

/-!
# Configurations read back

The fields of a configuration are a flat document as long as the limit is an integer of TOML. A
setting that is not set has no field, an empty section still has its table, and every other field is
found under its own name only, so what is read is what was written.
-/

namespace SchemaEditor

/-! ### Values that read back -/

namespace Toml

variable {α : Type} {encode : α → Toml} {read : Toml → Option α} {a : Option α}
variable {name : String} {names : List String} {fields : List (String × Toml)}

/-- Reading the written form of every value gives it back. -/
def Inverts (encode : α → Toml) (read : Toml → Option α) : Prop := ∀ a, read (encode a) = some a

theorem Inverts.text : Inverts .str text := fun _ => rfl

theorem Inverts.flag : Inverts .bool flag := fun _ => rfl

theorem Inverts.natural : Inverts (fun n : Nat => .int n) natural := fun n => by simp [Toml.natural]

theorem Inverts.list (h : Inverts encode read) :
    Inverts (fun as => .arr (as.map encode)) (Toml.list read) := by
  intro as
  rw [Toml.list]
  induction as with
  | nil => rfl
  | cons a as ih => simp [h a, ih]

/-- A field that is there exactly if a value is set reads back. -/
theorem optional_eq_some (h : fields.lookup name = a.map encode) (hread : Inverts encode read) :
    optional fields name read = some a := by
  rw [optional, h]
  cases a with
  | none => rfl
  | some a => simp [hread a]

theorem strict_eq_some (h : (fields.map (·.1)).Sublist names) :
    strict names fields = some fields := by
  refine if_pos (List.all_eq_true.mpr fun f hf => ?_)
  exact List.contains_iff_mem.mpr (h.subset (List.mem_map_of_mem hf))

end Toml

namespace Config

variable {α : Type} {encode : α → Toml} {a : Option α} {name : String} {c : Config} {s : String}

theorem keys_setField (name : String) (encode : α → Toml) (a : Option α) :
    ((setField name encode a).map (·.1)).Sublist [name] := by
  cases a with
  | none => exact List.nil_sublist _
  | some a => exact List.Sublist.refl _

theorem mem_setField {f : String × Toml} :
    f ∈ setField name encode a ↔ ∃ b, a = some b ∧ f = (name, encode b) := by
  cases a <;> simp [setField]

/-- A setting is found under its own name only. -/
theorem lookup_setField (name : String) (encode : α → Toml) (a : Option α) (key : String) :
    (setField name encode a).lookup key = if key = name then a.map encode else none := by
  cases a with
  | none => simp [setField]
  | some a => exact Text.Keyed.lookup_cons name (encode a) [] key

theorem plainFields_setField (hbare : Toml.IsBare name)
    (hplain : ∀ b, a = some b → Toml.Plain Toml.nestingLimit (encode b)) :
    Toml.PlainFields (setField name encode a) where
  isBare f hf := by
    obtain ⟨b, -, rfl⟩ := mem_setField.mp hf
    exact hbare
  plain f hf := by
    obtain ⟨b, hb, rfl⟩ := mem_setField.mp hf
    exact hplain b hb
  nodup := (keys_setField name encode a).nodup (by simp)

/-! ### Sections -/

theorem inverts_actionSettings :
    Toml.Inverts (fun s : ActionSettings => .table s.toFields) ActionSettings.ofToml := by
  intro s
  have hrecord : Toml.record ActionSettings.fieldNames (.table s.toFields) = some s.toFields :=
    Toml.strict_eq_some (keys_setField "minor_version_additions" .bool s.minorVersionAdditions)
  have hflag : Toml.optional s.toFields "minor_version_additions" Toml.flag =
      some s.minorVersionAdditions :=
    Toml.optional_eq_some ((lookup_setField ..).trans (if_pos rfl)) Toml.Inverts.flag
  simp only [ActionSettings.ofToml, hrecord, hflag, Option.bind_eq_bind, Option.bind_some,
    Option.pure_def]

theorem inverts_viewGroupSettings :
    Toml.Inverts (fun s : ViewGroupSettings => .table s.toFields) ViewGroupSettings.ofToml := by
  intro s
  have hrecord : Toml.record ViewGroupSettings.fieldNames (.table s.toFields) = some s.toFields :=
    Toml.strict_eq_some (List.Sublist.refl _)
  have hlocked : Toml.optional s.toFields "locked" (Toml.list Toml.text) = some (some s.locked) :=
    Toml.optional_eq_some (by simp [ViewGroupSettings.toFields]) Toml.Inverts.text.list
  simp only [ViewGroupSettings.ofToml, hrecord, hlocked, Option.bind_eq_bind, Option.bind_some,
    Option.getD_some, Option.pure_def]

/-! ### The whole configuration -/

/-- The fields that are no tables. -/
def entries (c : Config) : List (String × Toml) :=
  setField "user" .str c.user ++
    setField "history_limit" (fun n : Nat => .int n) c.historyLimit ++
    setField "log_filter" .str c.logFilter

/-- The sections with their fields. -/
def sections (c : Config) : List (String × List (String × Toml)) :=
  (c.actions.toList.map fun s => ("actions", s.toFields)) ++
    c.viewGroups.toList.map fun s => ("view_groups", s.toFields)

theorem toFields_eq (c : Config) : c.toFields = c.entries ++ Toml.ofTables c.sections := by
  simp only [toFields, entries, sections, Toml.ofTables, setField, List.map_append, List.map_map,
    List.append_assoc]
  rfl

theorem keys_toFields (c : Config) : (c.toFields.map (·.1)).Sublist fieldNames := by
  simp only [toFields, List.map_append]
  exact ((((keys_setField "user" ..).append (keys_setField "history_limit" ..)).append
    (keys_setField "log_filter" ..)).append (keys_setField "actions" ..)).append
    (keys_setField "view_groups" ..)

theorem lookup_toFields (c : Config) (key : String) : c.toFields.lookup key =
    ((((if key = "user" then c.user.map .str else none).or
      (if key = "history_limit" then c.historyLimit.map fun n : Nat => .int n else none)).or
      (if key = "log_filter" then c.logFilter.map .str else none)).or
      (if key = "actions" then c.actions.map fun s => .table s.toFields else none)).or
      (if key = "view_groups" then c.viewGroups.map fun s => .table s.toFields else none) := by
  simp only [toFields, List.lookup_append, lookup_setField]

/-- The settings are found again in the fields that are written for them. -/
theorem ofFields_toFields (c : Config) : ofFields c.toFields = some c := by
  have hstrict := Toml.strict_eq_some (keys_toFields c)
  have huser : Toml.optional c.toFields "user" Toml.text = some c.user :=
    Toml.optional_eq_some (by simp [lookup_toFields]) .text
  have hlimit : Toml.optional c.toFields "history_limit" Toml.natural = some c.historyLimit :=
    Toml.optional_eq_some (by simp [lookup_toFields]) .natural
  have hfilter : Toml.optional c.toFields "log_filter" Toml.text = some c.logFilter :=
    Toml.optional_eq_some (by simp [lookup_toFields]) .text
  have hactions : Toml.optional c.toFields "actions" ActionSettings.ofToml = some c.actions :=
    Toml.optional_eq_some (by simp [lookup_toFields]) inverts_actionSettings
  have hgroups : Toml.optional c.toFields "view_groups" ViewGroupSettings.ofToml =
      some c.viewGroups :=
    Toml.optional_eq_some (by simp [lookup_toFields]) inverts_viewGroupSettings
  simp only [ofFields, hstrict, huser, hlimit, hfilter, hactions, hgroups, Option.bind_eq_bind,
    Option.bind_some, Option.pure_def]

/-! ### The document -/

theorem isBare_of_mem_fieldNames : ∀ name ∈ fieldNames, Toml.IsBare name := by decide

theorem nodup_fieldNames : fieldNames.Nodup := by decide

theorem keys_entries_append_keys_sections (c : Config) :
    (c.entries.map (·.1) ++ c.sections.map (·.1)).Sublist fieldNames := by
  have h := keys_toFields c
  rw [toFields_eq, List.map_append, Toml.ofTables, List.map_map] at h
  exact h

theorem plain_of_mem_entries
    (hlimit : ∀ n, c.historyLimit = some n → Toml.isIntegerRange n = true) {f : String × Toml}
    (hf : f ∈ c.entries) : Toml.Plain Toml.nestingLimit f.2 := by
  simp only [entries, List.mem_append, mem_setField] at hf
  obtain (⟨s, -, rfl⟩ | ⟨n, hn, rfl⟩) | ⟨s, -, rfl⟩ := hf
  · exact .str s
  · exact .int (hlimit n hn)
  · exact .str s

theorem plainFields_of_mem_sections {t : String × List (String × Toml)} (ht : t ∈ c.sections) :
    Toml.PlainFields t.2 := by
  simp only [sections, List.mem_append, List.mem_map] at ht
  obtain ⟨s, -, rfl⟩ | ⟨s, -, rfl⟩ := ht
  · exact plainFields_setField (by decide) fun b _ => .bool b
  · show Toml.PlainFields
      (setField "locked" (fun ss : List String => .arr (ss.map .str)) (some s.locked))
    exact plainFields_setField (by decide) fun ss _ =>
      .arr (List.forall_mem_map.mpr fun s _ => .str s)

/-- The fields are a flat document if the limit is an integer of TOML. -/
theorem flat (hlimit : ∀ n, c.historyLimit = some n → Toml.isIntegerRange n = true) :
    Toml.Flat c.entries c.sections := by
  have hkeys := keys_entries_append_keys_sections c
  have hnodup := hkeys.nodup nodup_fieldNames
  have hbare : ∀ name ∈ c.entries.map (·.1) ++ c.sections.map (·.1), Toml.IsBare name :=
    fun name h => isBare_of_mem_fieldNames name (hkeys.subset h)
  constructor
  case plainEntries =>
    exact ⟨fun f hf => hbare f.1 (List.mem_append_left _ (List.mem_map_of_mem hf)),
      fun f => plain_of_mem_entries hlimit, (List.nodup_append.mp hnodup).1⟩
  case isBare => exact fun t ht => hbare t.1 (List.mem_append_right _ (List.mem_map_of_mem ht))
  case plainTables => exact fun t => plainFields_of_mem_sections
  case nodup => exact hnodup

theorem print_eq_ok_iff : c.print = .ok s ↔
    (∀ n, c.historyLimit = some n → Toml.isIntegerRange n = true) ∧ s = Toml.print c.toFields := by
  rw [print]
  split
  · next hout =>
    obtain ⟨n, hn, hrange⟩ : ∃ n, c.historyLimit = some n ∧ Toml.isIntegerRange n = false := by
      cases hlimit : c.historyLimit with
      | none => simp [hlimit] at hout
      | some n => exact ⟨n, rfl, by simpa [hlimit] using hout⟩
    refine ⟨fun h => (nomatch h), fun h => ?_⟩
    simp [h.1 n hn] at hrange
  · next hin =>
    refine ⟨fun h => ⟨fun n hn => ?_, (Except.ok.inj h).symm⟩, fun h => by rw [h.2]⟩
    simpa [hn] using hin

/-- What a configuration is written as reads back as that configuration. -/
theorem parse_print (h : c.print = .ok s) : parse s = some c := by
  obtain ⟨hlimit, rfl⟩ := print_eq_ok_iff.mp h
  rw [parse, toFields_eq, Toml.parse_print (flat hlimit), Option.bind_some, ← toFields_eq,
    ofFields_toFields]

end Config

end SchemaEditor
