import SchemaEditor.Proofs.Toml.Value
import SchemaEditor.Toml.Document

/-!
# Written documents read back

A flat document has fields with plain values, and after them tables of such fields; its keys need
no quotes and no table has a key twice. Its text is a sequence of lines. Each line is read as the
expression it was written for, and the expressions, taken in order, put every field where it was.
-/

namespace SchemaEditor.Toml

variable {c d : Char} {cs rest : List Char} {key : String} {v : Toml}

/-! ### Keys -/

/-- A key that needs no quotes. -/
def IsBare (key : String) : Prop := key.toList ≠ [] ∧ key.toList.all isBareKeyChar = true

instance (key : String) : Decidable (IsBare key) := inferInstanceAs (Decidable (_ ∧ _))

theorem ne_of_isBareKeyChar (hc : isBareKeyChar c = true) (hd : isBareKeyChar d = false) :
    c ≠ d := fun h => by simp [h, hd] at hc

theorem solid_of_isBareKeyChar (hc : isBareKeyChar c = true) : Solid c := by
  refine ⟨?_, ne_of_isBareKeyChar hc rfl, ne_of_isBareKeyChar hc rfl, ne_of_isBareKeyChar hc rfl⟩
  simp [isSpace, ne_of_isBareKeyChar hc (d := ' ') rfl, ne_of_isBareKeyChar hc (d := '\t') rfl]

namespace IsBare

theorem writeKey_eq (h : IsBare key) : writeKey key = key.toList := if_pos h

theorem exists_cons (h : IsBare key) :
    ∃ c X, key.toList = c :: X ∧ isBareKeyChar c = true := by
  obtain ⟨c, X, hX⟩ := List.exists_cons_of_ne_nil h.1
  exact ⟨c, X, hX, List.all_eq_true.mp h.2 c (by rw [hX]; exact List.mem_cons_self)⟩

theorem simpleKey?_append (h : IsBare key) (hd : isBareKeyChar d = false) :
    simpleKey? (key.toList ++ d :: rest) = some (key, d :: rest) := by
  have hall := List.all_eq_true.mp h.2
  have htake : (key.toList ++ d :: rest).takeWhile isBareKeyChar = key.toList := by
    rw [List.takeWhile_append_of_pos hall, List.takeWhile_cons_of_neg (by simp [hd]),
      List.append_nil]
  have hdrop : (key.toList ++ d :: rest).dropWhile isBareKeyChar = d :: rest := by
    rw [List.dropWhile_append_of_pos hall, List.dropWhile_cons_of_neg (by simp [hd])]
  rw [simpleKey?, htake, hdrop]
  split
  · next hnil => exact absurd hnil h.1
  · rw [String.ofList_toList]

/-- One key alone is the whole path. -/
theorem keyPath?_append (h : IsBare key) (hd : isBareKeyChar d = false)
    (hrest : skipSpaces (d :: rest) = c :: cs) (hc : c ≠ '.') :
    keyPath? (writeKey key ++ d :: rest) = some (⟨[], key⟩, c :: cs) := by
  obtain ⟨k, X, hX, hk⟩ := h.exists_cons
  have hskip : skipSpaces (key.toList ++ d :: rest) = key.toList ++ d :: rest := by
    rw [hX, List.cons_append, skipSpaces_cons (solid_of_isBareKeyChar hk).1]
  have hkeys : keys? nestingLimit (key.toList ++ d :: rest) = some ([key], c :: cs) := by
    rw [nestingLimit, keys?, hskip, h.simpleKey?_append hd]
    simp only [hrest]
    split
    · next h => exact absurd (List.cons.inj h).1 hc
    · rfl
  rw [keyPath?, h.writeKey_eq, hkeys]
  rfl

end IsBare

/-! ### Lines -/

/-- A text whose lines say something in the given order, with fuel for each of its characters. -/
def Reads (cs : List Char) (es : List Expression) : Prop :=
  ∀ fuel, cs.length < fuel → expressionsIn fuel cs = some es

theorem lineEnd?_newline (cs : List Char) : lineEnd? ('\n' :: cs) = some cs := rfl

theorem lineEnd?_cons (hc : Solid c) (cs : List Char) : lineEnd? (c :: cs) = none := by
  rw [lineEnd?, skipSpaces_cons hc.1, skipComment_cons hc.2.1]
  exact newline?_cons hc.2.2 cs

namespace Reads

variable {es : List Expression} {e : Expression}

theorem nil : Reads [] [] := fun fuel h => by
  obtain ⟨fuel, rfl⟩ := Nat.exists_eq_add_one.mpr h
  rfl

/-- Blank lines say nothing. -/
theorem blank (h : Reads cs es) : Reads ('\n' :: cs) es := fun fuel hfuel => by
  obtain ⟨fuel, rfl⟩ := Nat.exists_eq_add_one.mpr (Nat.zero_lt_of_lt hfuel)
  exact h fuel (Nat.lt_of_succ_lt_succ hfuel)

/-- A line that is no blank one says what it is read as. -/
theorem line (hc : Solid c) (hread : expression? (c :: cs) = some (e, rest))
    (hlength : rest.length ≤ cs.length) (h : Reads rest es) : Reads (c :: cs) (e :: es) := by
  intro fuel hfuel
  obtain ⟨fuel, rfl⟩ := Nat.exists_eq_add_one.mpr (Nat.zero_lt_of_lt hfuel)
  rw [List.length_cons] at hfuel
  rw [expressionsIn, skipSpaces_cons hc.1]
  simp only [lineEnd?_cons hc, hread, h fuel (by omega), Option.map_some]

/-- A field on a line of its own. -/
theorem entry (hkey : IsBare key) (hv : Plain nestingLimit v) (h : Reads cs es) :
    Reads (writeKey key ++ [' ', '=', ' '] ++ write v ++ ['\n'] ++ cs)
      (.entry ⟨[], key⟩ v :: es) := by
  obtain ⟨k, X, hX, hk⟩ := hkey.exists_cons
  obtain ⟨w, W, hW, hw, -⟩ := hv.exists_cons_write
  have htext : writeKey key ++ [' ', '=', ' '] ++ write v ++ ['\n'] ++ cs =
      k :: (X ++ ' ' :: '=' :: ' ' :: (write v ++ '\n' :: cs)) := by
    simp [hkey.writeKey_eq, hX]
  have hassign : assignment? (k :: (X ++ ' ' :: '=' :: ' ' :: (write v ++ '\n' :: cs))) =
      some (⟨[], key⟩, ' ' :: (write v ++ '\n' :: cs)) := by
    rw [← List.cons_append, ← hX, ← hkey.writeKey_eq, assignment?,
      hkey.keyPath?_append rfl rfl (by decide)]
    rfl
  have hvalue : skipSpaces (' ' :: (write v ++ '\n' :: cs)) = write v ++ '\n' :: cs := by
    show skipSpaces (write v ++ '\n' :: cs) = _
    rw [hW, List.cons_append, skipSpaces_cons hw.1]
  rw [htext]
  refine line (solid_of_isBareKeyChar hk) ?_ ?_ h
  · have hbracket := ne_of_isBareKeyChar hk (d := '[') rfl
    rw [expression?, hassign]
    · simp only [hvalue, readValue?_write hv (.newline cs), lineEnd?_newline, Option.map_some]
    · exact fun Y hY => hbracket (List.cons.inj hY).1
    · exact fun Y hY => hbracket (List.cons.inj hY).1
  · simp
    omega

/-- A header on a line of its own. -/
theorem header (hkey : IsBare key) (h : Reads cs es) :
    Reads ('[' :: (writeKey key ++ [']', '\n'] ++ cs)) (.header ⟨[], key⟩ :: es) := by
  obtain ⟨k, X, hX, hk⟩ := hkey.exists_cons
  have hpath : keyPath? (writeKey key ++ [']', '\n'] ++ cs) =
      some (⟨[], key⟩, ']' :: '\n' :: cs) := by
    rw [List.append_assoc]
    exact hkey.keyPath?_append rfl rfl (by decide)
  refine line (by decide) ?_ ?_ h
  · rw [expression?, hpath]
    · simp only [headerEnd?, lineEnd?_newline, Option.map_some]
    · rintro Y hY
      rw [hkey.writeKey_eq, hX] at hY
      exact ne_of_isBareKeyChar hk (d := '[') rfl (List.cons.inj hY).1
  · simp
    omega

end Reads

/-! ### Flat documents -/

/-- Fields with keys that need no quotes, each of them once, and with plain values. -/
structure PlainFields (fields : List (String × Toml)) : Prop where
  isBare : ∀ f ∈ fields, IsBare f.1
  plain : ∀ f ∈ fields, Plain nestingLimit f.2
  nodup : (fields.map (·.1)).Nodup

/-- Fields that are tables. -/
def ofTables (tables : List (String × List (String × Toml))) : List (String × Toml) :=
  tables.map fun t => (t.1, .table t.2)

/-- What the lines of some fields say. -/
def entryLines (fields : List (String × Toml)) : List Expression :=
  fields.map fun f => .entry ⟨[], f.1⟩ f.2

/-- What the lines of some tables say. -/
def tableLines (tables : List (String × List (String × Toml))) : List Expression :=
  tables.flatMap fun t => .header ⟨[], t.1⟩ :: entryLines t.2

/-- A document of plain fields and of tables of plain fields behind them. -/
structure Flat (entries : List (String × Toml)) (tables : List (String × List (String × Toml))) :
    Prop where
  plainEntries : PlainFields entries
  isBare : ∀ t ∈ tables, IsBare t.1
  plainTables : ∀ t ∈ tables, PlainFields t.2
  nodup : (entries.map (·.1) ++ tables.map (·.1)).Nodup

variable {entries fields : List (String × Toml)} {tables : List (String × List (String × Toml))}
variable {es : List Expression} {first : Bool}

theorem Reads.writeFields (hbare : ∀ f ∈ fields, IsBare f.1)
    (hplain : ∀ f ∈ fields, Plain nestingLimit f.2) (h : Reads cs es) :
    Reads (writeFields fields ++ cs) (entryLines fields ++ es) := by
  induction fields with
  | nil => exact h
  | cons f fields ih =>
    obtain ⟨hf, hfs⟩ := List.forall_mem_cons.mp hbare
    obtain ⟨hv, hvs⟩ := List.forall_mem_cons.mp hplain
    rw [Toml.writeFields, List.append_assoc]
    exact (ih hfs hvs).entry hf hv

theorem Reads.writeTables (hbare : ∀ t ∈ tables, IsBare t.1)
    (hplain : ∀ t ∈ tables, PlainFields t.2) (first : Bool) :
    Reads (writeTables first (ofTables tables)) (tableLines tables) := by
  induction tables generalizing first with
  | nil => exact .nil
  | cons t tables ih =>
    obtain ⟨ht, hts⟩ := List.forall_mem_cons.mp hbare
    obtain ⟨hp, hps⟩ := List.forall_mem_cons.mp hplain
    have hlines : Reads ('[' :: (writeKey t.1 ++ [']', '\n'] ++
        (Toml.writeFields t.2 ++ Toml.writeTables false (ofTables tables))))
        (tableLines (t :: tables)) :=
      ((ih hts hps false).writeFields hp.isBare hp.plain).header ht
    have htext : Toml.writeTables first (ofTables (t :: tables)) =
        (if first then [] else ['\n']) ++ '[' :: (writeKey t.1 ++ [']', '\n'] ++
          (Toml.writeFields t.2 ++ Toml.writeTables false (ofTables tables))) := by
      rw [ofTables, List.map_cons, Toml.writeTables, ofTables]
      simp
    rw [htext]
    cases first with
    | true => exact hlines
    | false => exact hlines.blank

/-- Plain fields are written on lines of their own and are no tables. -/
theorem Plain.ne_table {k : Nat} (h : Plain k v) (fs : List (String × Toml)) : v ≠ .table fs := by
  rintro rfl
  cases h

theorem writeEntries_append (hplain : ∀ f ∈ entries, Plain nestingLimit f.2) :
    writeEntries (entries ++ ofTables tables) = writeFields entries := by
  induction entries with
  | nil =>
    induction tables with
    | nil => rfl
    | cons t tables ih => exact ih
  | cons f entries ih =>
    obtain ⟨hv, hvs⟩ := List.forall_mem_cons.mp hplain
    rw [List.cons_append, writeEntries, writeFields, ih hvs]
    exact fun fs h => hv.ne_table fs h

theorem writeTables_append (hplain : ∀ f ∈ entries, Plain nestingLimit f.2) :
    writeTables first (entries ++ ofTables tables) = writeTables first (ofTables tables) := by
  induction entries with
  | nil => rfl
  | cons f entries ih =>
    obtain ⟨hv, hvs⟩ := List.forall_mem_cons.mp hplain
    rw [List.cons_append, writeTables, ih hvs]
    exact fun k fs h => hv.ne_table fs (Prod.mk.inj h).2

theorem Flat.reads (h : Flat entries tables) :
    Reads (print (entries ++ ofTables tables)).toList
      (entryLines entries ++ tableLines tables) := by
  rw [print, String.toList_ofList, writeEntries_append h.plainEntries.plain,
    writeTables_append h.plainEntries.plain]
  exact (Reads.writeTables h.isBare h.plainTables _).writeFields h.plainEntries.isBare
    h.plainEntries.plain

/-! ### Fields put in place -/

namespace Fields

variable {before : Fields} {f : Option Item → Option Item}

/-- Fields under other keys stay in front. -/
theorem alter_append (hfresh : key ∉ before.map (·.1)) (after : Fields) :
    alter key f (before ++ after) = (alter key f after).map (before ++ ·) := by
  induction before with
  | nil => simp
  | cons e before ih =>
    simp only [List.map_cons, List.mem_cons, not_or] at hfresh
    rw [List.cons_append, alter, if_neg (Ne.symm hfresh.1), ih hfresh.2, Option.map_map]
    rfl

theorem alter_fresh (hfresh : key ∉ before.map (·.1)) :
    alter key f before = (f none).map fun item => before ++ [(key, item)] := by
  have h := alter_append (f := f) hfresh []
  rw [List.append_nil, alter, Option.map_map] at h
  exact h

theorem addValue_fresh (hfresh : key ∉ before.map (·.1)) (v : Toml) :
    before.addValue [] key v = some (before ++ [(key, .value v)]) :=
  alter_fresh hfresh

theorem openTable_fresh (hfresh : key ∉ before.map (·.1)) :
    before.openTable [] key = some (before ++ [(key, .table .header [])]) :=
  alter_fresh hfresh

end Fields

namespace Document

/-- Fields with finished values. -/
def valueItems (fields : List (String × Toml)) : Fields := fields.map fun f => (f.1, .value f.2)

theorem keys_valueItems (fields : List (String × Toml)) :
    (valueItems fields).map (·.1) = fields.map (·.1) :=
  List.map_map

/-- Tables with finished fields under headers. -/
def tableItems (tables : List (String × List (String × Toml))) : Fields :=
  tables.map fun t => (t.1, .table .header (valueItems t.2))

/-- A place where the fields under construction are those that `put` puts there. -/
def At (place : List String) (put : Fields → Fields) : Prop :=
  ∀ inner key v,
    (put inner).addValueAt place [] key v = (inner.addValue [] key v).map put

theorem at_top : At [] id := fun inner key v => by
  rw [Option.map_id_fun]
  rfl

theorem at_last {before : Fields} (hfresh : key ∉ before.map (·.1)) :
    At [key] fun inner => before ++ [(key, .table .header inner)] := fun inner k v => by
  rw [Fields.addValueAt, Fields.within, Fields.alter_append hfresh, Fields.alter, if_pos rfl]
  simp only [Fields.within, reduceCtorEq, false_and, if_false, Option.map_map]
  rfl

variable {place : List String} {put : Fields → Fields}

/-- The lines of plain fields put their values behind those that are there. -/
theorem foldlM_entryLines (hat : At place put) (inner : Fields) (fields : List (String × Toml))
    (hnodup : (inner.map (·.1) ++ fields.map (·.1)).Nodup) :
    (entryLines fields).foldlM take ⟨put inner, place⟩ =
      some ⟨put (inner ++ valueItems fields), place⟩ := by
  -- On the lines still to come; the fields of those before them are in `inner`.
  induction fields generalizing inner with
  | nil => simp [entryLines, valueItems]
  | cons f fields ih =>
    have hfresh : f.1 ∉ inner.map (·.1) := fun h =>
      (List.nodup_append.mp hnodup).2.2 _ h _ List.mem_cons_self rfl
    have htake : take ⟨put inner, place⟩ (.entry ⟨[], f.1⟩ f.2) =
        some ⟨put (inner ++ [(f.1, .value f.2)]), place⟩ := by
      rw [take, hat, Fields.addValue_fresh hfresh]
      rfl
    rw [entryLines, List.map_cons, List.foldlM_cons, htake]
    show (entryLines fields).foldlM take _ = _
    rw [ih]
    · simp [valueItems]
    · simpa using hnodup

/-- The lines of tables put them behind what is there. -/
theorem foldlM_tableLines (before : Fields) (hplain : ∀ t ∈ tables, PlainFields t.2)
    (hnodup : (before.map (·.1) ++ tables.map (·.1)).Nodup) (place : List String) :
    ((tableLines tables).foldlM take ⟨before, place⟩).map (·.fields) =
      some (before ++ tableItems tables) := by
  induction tables generalizing before place with
  | nil => simp [tableLines, tableItems]
  | cons t tables ih =>
    obtain ⟨ht, hts⟩ := List.forall_mem_cons.mp hplain
    have hfresh : t.1 ∉ before.map (·.1) := fun h =>
      (List.nodup_append.mp hnodup).2.2 _ h _ List.mem_cons_self rfl
    have htake : take ⟨before, place⟩ (.header ⟨[], t.1⟩) =
        some ⟨before ++ [(t.1, .table .header [])], [t.1]⟩ := by
      rw [take, Fields.openTable_fresh hfresh]
      rfl
    have hfields := foldlM_entryLines (at_last hfresh) [] t.2
      (by simpa using ht.nodup)
    rw [tableLines, List.flatMap_cons, List.cons_append, List.foldlM_cons, htake]
    show ((entryLines t.2 ++ tableLines tables).foldlM take _).map _ = _
    rw [List.foldlM_append, hfields]
    show ((tableLines tables).foldlM take _).map _ = _
    rw [ih _ hts]
    · simp [tableItems]
    · simpa using hnodup

end Document

theorem finishFields_eq_map (fields : Fields) :
    finishFields fields = fields.map fun f => (f.1, f.2.finish) := by
  induction fields with
  | nil => rfl
  | cons f fields ih => rw [finishFields, ih, List.map_cons]

theorem finishFields_valueItems (fields : List (String × Toml)) :
    finishFields (Document.valueItems fields) = fields := by
  rw [finishFields_eq_map, Document.valueItems, List.map_map]
  exact List.map_id' fields

theorem finishFields_tableItems (tables : List (String × List (String × Toml))) :
    finishFields (Document.tableItems tables) = ofTables tables := by
  rw [finishFields_eq_map, Document.tableItems, List.map_map, ofTables]
  refine List.map_congr_left fun t _ => ?_
  show (t.1, Toml.table (finishFields (Document.valueItems t.2))) = _
  rw [finishFields_valueItems]

theorem finishFields_append (a b : Fields) :
    finishFields (a ++ b) = finishFields a ++ finishFields b := by
  simp only [finishFields_eq_map, List.map_append]

theorem dropMark_cons (hc : c ≠ '\ufeff') (cs : List Char) : dropMark (c :: cs) = c :: cs := by
  rw [dropMark]
  exact fun X h => hc (List.cons.inj h).1

/-- A document begins with a key or a bracket, or is empty. -/
theorem Flat.dropMark_print (h : Flat entries tables) :
    dropMark (print (entries ++ ofTables tables)).toList =
      (print (entries ++ ofTables tables)).toList := by
  rw [print, String.toList_ofList, writeEntries_append h.plainEntries.plain,
    writeTables_append h.plainEntries.plain]
  cases entries with
  | nil =>
    cases tables with
    | nil => rfl
    | cons t tables => exact dropMark_cons (by decide) _
  | cons f entries =>
    have hkey := h.plainEntries.isBare f List.mem_cons_self
    obtain ⟨k, X, hX, hk⟩ := hkey.exists_cons
    rw [writeFields, hkey.writeKey_eq, hX]
    exact dropMark_cons (ne_of_isBareKeyChar hk rfl) _

/-- A flat document reads back as it was written. -/
theorem parse_print (h : Flat entries tables) :
    parse (print (entries ++ ofTables tables)) = some (entries ++ ofTables tables) := by
  have hlines : expressions? (print (entries ++ ofTables tables)).toList =
      some (entryLines entries ++ tableLines tables) := h.reads _ (Nat.lt_succ_self _)
  have hentries := Document.foldlM_entryLines Document.at_top [] entries
    (by simpa using h.plainEntries.nodup)
  have htables := Document.foldlM_tableLines (Document.valueItems entries)
    h.plainTables (by rw [Document.keys_valueItems]; exact h.nodup) []
  obtain ⟨d, hd, hfields⟩ := Option.map_eq_some_iff.mp htables
  have hfold : (entryLines entries ++ tableLines tables).foldlM Document.take .empty = some d := by
    rw [List.foldlM_append]
    show ((entryLines entries).foldlM Document.take ⟨id [], []⟩ >>= _) = _
    rw [hentries]
    exact hd
  rw [parse, h.dropMark_print, hlines]
  simp only [Option.bind_eq_bind, Option.bind_some, hfold, hfields, finishFields_append,
    finishFields_valueItems, finishFields_tableItems, Option.pure_def]

end SchemaEditor.Toml
