import SchemaEditor.Proofs.Toml.Quoted
import SchemaEditor.Toml.Printer

/-!
# Written values read back

Texts, integers within the range, truth values and arrays of them are `Plain`. Each of them reads
back from its written form in front of a line end, a comma or a closing bracket, which is all that
ever stands behind a value in a document. The items of an array are read with the blanks between
them, whether they stand on one line or on a line each.
-/

namespace SchemaEditor.Toml

variable {c : Char} {cs ds rest : List Char} {v : Toml} {items acc : List Toml} {n : Nat} {z : Int}
variable {depth fuel : Nat}

/-- What stands behind a value in a document: a line end, a comma or a closing bracket. -/
def Ends (rest : List Char) : Prop := ∃ c X, rest = c :: X ∧ (c = '\n' ∨ c = ',' ∨ c = ']')

theorem Ends.newline (cs : List Char) : Ends ('\n' :: cs) := ⟨_, cs, rfl, .inl rfl⟩

theorem Ends.comma (cs : List Char) : Ends (',' :: cs) := ⟨_, cs, rfl, .inr (.inl rfl)⟩

theorem Ends.bracket (cs : List Char) : Ends (']' :: cs) := ⟨_, cs, rfl, .inr (.inr rfl)⟩

theorem Ends.quoted (h : Ends rest) : Quoted.Ends rest := by
  obtain ⟨c, X, rfl, rfl | rfl | rfl⟩ := h <;> simp [Quoted.Ends]

/-! ### Integers and truth values -/

namespace Scalar

/-- A run of digits has no underscores to leave out. -/
theorem ungrouped?_of_isDigit (hne : ds ≠ []) (hdigits : ∀ d ∈ ds, d.isDigit = true) :
    ungrouped? Char.isDigit ds = some ds := by
  induction ds with
  | nil => exact absurd rfl hne
  | cons d ds ih =>
    obtain ⟨hd, hds⟩ := List.forall_mem_cons.mp hdigits
    cases ds with
    | nil => simp [ungrouped?, hd]
    | cons e ds =>
      rw [ungrouped?, if_pos hd, ih (List.cons_ne_nil _ _) hds]
      · rfl
      · simp
      · rintro X h
        obtain ⟨rfl, -⟩ := List.cons.inj h
        exact absurd (hds '_' List.mem_cons_self) (by decide)

theorem decimal?_digits (n : Nat) :
    decimal? (Text.Decimal.digits n) = some (Text.Decimal.digits n) := by
  rw [decimal?, ungrouped?_of_isDigit (Text.Decimal.digits_ne_nil n)
    (Text.Decimal.isDigit_of_mem_digits n)]
  split
  · next h =>
    obtain rfl | hn := Nat.eq_zero_or_pos n
    · simp [Text.Decimal.digits] at h
    · exact absurd (by rw [Option.some.inj h]; rfl) (Text.Decimal.head?_digits_ne_zero hn)
  · rfl

theorem signed_digits (n : Nat) :
    signed (Text.Decimal.digits n) = (false, Text.Decimal.digits n) := by
  obtain ⟨d, ds, hds, hd⟩ := Text.Decimal.exists_cons_digits n
  rw [hds, signed]
  · intro X h
    obtain ⟨rfl, -⟩ := List.cons.inj h
    exact absurd hd (by decide)
  · intro X h
    obtain ⟨rfl, -⟩ := List.cons.inj h
    exact absurd hd (by decide)

theorem unbounded?_writeInteger (z : Int) : unbounded? (writeInteger z) = some z := by
  unfold writeInteger
  split
  · next hz =>
    show (decimal? (Text.Decimal.digits z.natAbs)).map _ = _
    rw [decimal?_digits, Option.map_some, Text.Decimal.value_digits]
    exact congrArg some (by simp only [if_true]; omega)
  · next hz =>
    have hbase {c : Char} (hc : c.isDigit = false) (X : List Char) :
        Text.Decimal.digits z.natAbs ≠ '0' :: c :: X := fun h =>
      Text.Decimal.not_mem_digits hc z.natAbs (by simp [h])
    rw [unbounded?, signed_digits]
    · simp only [decimal?_digits, Option.map_some, Text.Decimal.value_digits]
      exact congrArg some (by simp; omega)
    · exact hbase rfl
    · exact hbase rfl
    · exact hbase rfl

theorem integer?_writeInteger (hz : isIntegerRange z = true) :
    integer? (writeInteger z) = some z := by
  rw [integer?, unbounded?_writeInteger]
  simp [hz]

/-- A run ends before what stands behind a value. -/
theorem read?_run (hcs : ∀ c ∈ cs, isScalarChar c = true) (hrest : Ends rest) :
    read? (cs ++ rest) = (ofRun? cs).map fun v => (v, rest) := by
  have hrun : (cs ++ rest).takeWhile isScalarChar = cs := by
    obtain ⟨c, X, rfl, rfl | rfl | rfl⟩ := hrest
    all_goals
      rw [List.takeWhile_append_of_pos hcs, List.takeWhile_cons_of_neg (by decide), List.append_nil]
  have hlength : runLength (cs ++ rest) = cs.length := by
    simp only [runLength, hrun, List.drop_left]
    obtain ⟨c, X, rfl, rfl | rfl | rfl⟩ := hrest <;> rfl
  simp only [read?, hlength, List.take_left, List.drop_left]

/-- An integer begins with a sign or a digit and with nothing else. -/
theorem exists_cons_writeInteger (z : Int) :
    ∃ d ds, writeInteger z = d :: ds ∧ ∀ c, c ≠ '-' → c.isDigit = false → d ≠ c := by
  obtain ⟨d, ds, hds, hd⟩ := Text.Decimal.exists_cons_digits z.natAbs
  unfold writeInteger
  split
  · exact ⟨'-', _, rfl, fun c hc _ => hc.symm⟩
  · exact ⟨d, ds, hds, fun c _ hc hdc => by simp [← hdc, hd] at hc⟩

theorem isScalarChar_of_mem_writeInteger (z : Int) :
    ∀ c ∈ writeInteger z, isScalarChar c = true := by
  have hdigits : ∀ c ∈ Text.Decimal.digits z.natAbs, isScalarChar c = true := fun c hc => by
    simp [isScalarChar, Char.isAlphanum, Text.Decimal.isDigit_of_mem_digits _ c hc]
  unfold writeInteger
  split
  · exact List.forall_mem_cons.mpr ⟨rfl, hdigits⟩
  · exact hdigits

theorem read?_writeInteger (hz : isIntegerRange z = true) (hrest : Ends rest) :
    read? (writeInteger z ++ rest) = some (.int z, rest) := by
  obtain ⟨d, ds, hds, hd⟩ := exists_cons_writeInteger z
  have hletter {c : Char} {cs : List Char} (hc : c ≠ '-') (hdigit : c.isDigit = false) :
      writeInteger z ≠ c :: cs := fun h => hd c hc hdigit (List.cons.inj (hds.symm.trans h)).1
  rw [read?_run (isScalarChar_of_mem_writeInteger z) hrest, ofRun?,
    if_neg (hletter (by decide) rfl), if_neg (hletter (by decide) rfl), integer?_writeInteger hz]
  rfl

theorem isScalarChar_of_mem_writeBool (b : Bool) : ∀ c ∈ writeBool b, isScalarChar c = true := by
  cases b <;> exact List.all_eq_true.mp (by decide)

theorem read?_writeBool (b : Bool) (hrest : Ends rest) :
    read? (writeBool b ++ rest) = some (.bool b, rest) := by
  rw [read?_run (isScalarChar_of_mem_writeBool b) hrest]
  cases b <;> rfl

end Scalar

/-! ### Blanks between items -/

/-- A character that begins neither a blank nor a comment nor a line end. -/
def Solid (c : Char) : Prop := isSpace c = false ∧ c ≠ '#' ∧ c ≠ '\n' ∧ c ≠ '\r'

instance (c : Char) : Decidable (Solid c) := inferInstanceAs (Decidable (_ ∧ _))

theorem skipSpaces_cons (hc : isSpace c = false) (cs : List Char) :
    skipSpaces (c :: cs) = c :: cs :=
  List.dropWhile_cons_of_neg (by simp [hc])

theorem skipSpaces_append (hspaces : ∀ s ∈ ds, isSpace s = true) (cs : List Char) :
    skipSpaces (ds ++ cs) = skipSpaces cs :=
  List.dropWhile_append_of_pos hspaces

theorem skipComment_cons (hc : c ≠ '#') (cs : List Char) : skipComment (c :: cs) = c :: cs := by
  rw [skipComment]
  intro X h
  exact hc (List.cons.inj h).1

theorem newline?_cons (h : c ≠ '\n' ∧ c ≠ '\r') (cs : List Char) : newline? (c :: cs) = none := by
  rw [newline?]
  · exact fun X hX => h.1 (List.cons.inj hX).1
  · exact fun X hX => h.2 (List.cons.inj hX).1

/-- Blanks in front of anything else on a line are dropped. -/
theorem skipBlanks_append (hspaces : ∀ s ∈ ds, isSpace s = true) (hc : Solid c) (cs : List Char) :
    skipBlanks (ds ++ c :: cs) = c :: cs := by
  obtain ⟨hspace, hcomment, hline⟩ := hc
  have hskip : skipSpaces (ds ++ c :: cs) = c :: cs := by
    rw [skipSpaces_append hspaces, skipSpaces_cons hspace]
  obtain ⟨k, hk⟩ : ∃ k, (ds ++ c :: cs).length = k + 1 := ⟨ds.length + cs.length, by simp; omega⟩
  rw [skipBlanks, hk, skipLines, hskip, skipComment_cons hcomment, newline?_cons hline]

theorem skipBlanks_cons (hc : Solid c) (cs : List Char) : skipBlanks (c :: cs) = c :: cs :=
  skipBlanks_append (List.forall_mem_nil _) hc cs

theorem skipBlanks_newline (cs : List Char) : skipBlanks ('\n' :: cs) = skipBlanks cs := rfl

theorem skipBlanks_itemIndent (hc : Solid c) (cs : List Char) :
    skipBlanks (itemIndent ++ c :: cs) = c :: cs := by
  show skipBlanks ('\n' :: ([' ', ' ', ' ', ' '] ++ c :: cs)) = _
  rw [skipBlanks_newline]
  exact skipBlanks_append (List.all_eq_true.mp (by decide)) hc cs

/-! ### Plain values -/

/-- The texts, integers and truth values, and arrays of them that are nested at most so deep. -/
inductive Plain : Nat → Toml → Prop
  | str {k : Nat} (s : String) : Plain k (.str s)
  | int {k : Nat} {m : Int} (h : isIntegerRange m = true) : Plain k (.int m)
  | bool {k : Nat} (b : Bool) : Plain k (.bool b)
  | arr {k : Nat} {vs : List Toml} (h : ∀ v ∈ vs, Plain k v) : Plain (k + 1) (.arr vs)

/-- An array of several items stands on a line each. -/
theorem write_items (v w : Toml) (vs : List Toml) :
    write (.arr (v :: w :: vs)) = '[' :: (writeItems (v :: w :: vs) ++ ['\n', ']']) := by
  simp [write, writeItem, writeItems]

/-- A written value begins with something that is no blank and ends no array. -/
theorem Plain.exists_cons_write {k : Nat} (h : Plain k v) :
    ∃ c X, write v = c :: X ∧ Solid c ∧ c ≠ ']' := by
  cases h with
  | str s =>
    obtain ⟨q, X, hwrite, rfl | rfl⟩ := Quoted.exists_cons_write s.toList
    · exact ⟨'"', X, by rw [write, hwrite], by decide⟩
    · exact ⟨'\'', X, by rw [write, hwrite], by decide⟩
  | int h =>
    obtain ⟨d, ds, hds, hd⟩ := Scalar.exists_cons_writeInteger _
    have hspace : isSpace d = false := by
      simp [isSpace, hd ' ' (by decide) rfl, hd '\t' (by decide) rfl]
    exact ⟨d, ds, by rw [write, hds], ⟨hspace, hd '#' (by decide) rfl, hd '\n' (by decide) rfl,
      hd '\r' (by decide) rfl⟩, hd ']' (by decide) rfl⟩
  | bool b =>
    cases b with
    | false => exact ⟨'f', _, by rw [write, writeBool], by decide⟩
    | true => exact ⟨'t', _, by rw [write, writeBool], by decide⟩
  | @arr k vs h =>
    obtain _ | ⟨v, _ | ⟨w, vs⟩⟩ := vs
    · exact ⟨'[', _, by rw [write], by decide⟩
    · exact ⟨'[', _, by rw [write], by decide⟩
    · exact ⟨'[', _, write_items v w vs, by decide⟩

/-! ### Values read back -/

/-- What begins with no bracket and no brace is a text or a plain scalar. -/
theorem value?_cons (h : c ≠ '[' ∧ c ≠ '\x7b') (cs : List Char) :
    value? depth (fuel + 1) (c :: cs) =
      if c = '"' ∨ c = '\'' then
        (Quoted.read? (c :: cs)).map fun (s, rest) => (.str (String.ofList s), rest)
      else Scalar.read? (c :: cs) := by
  rw [value?]
  · simp
  · exact fun X hX => h.1 (List.cons.inj hX).1
  · exact fun X hX => h.2 (List.cons.inj hX).1

/-- After an item with a comma behind it the items go on. -/
theorem items?_comma {X : List Char} (hc : c ≠ ']')
    (hvalue : value? depth fuel (c :: cs) = some (v, rest)) (hrest : skipBlanks rest = ',' :: X)
    (acc : List Toml) :
    items? depth (fuel + 1) acc (c :: cs) = items? depth fuel (v :: acc) (skipBlanks X) := by
  rw [items?]
  · simp only [hvalue, hrest]
  · exact fun X hX => hc (List.cons.inj hX).1

/-- An item with a closing bracket behind it is the last one. -/
theorem items?_last {X : List Char} (hc : c ≠ ']')
    (hvalue : value? depth fuel (c :: cs) = some (v, rest)) (hrest : skipBlanks rest = ']' :: X)
    (acc : List Toml) :
    items? depth (fuel + 1) acc (c :: cs) = some (.arr (v :: acc).reverse, X) := by
  rw [items?]
  · simp only [hvalue, hrest]
  · exact fun X hX => hc (List.cons.inj hX).1

/-- Items on a line each read back if each of them does. -/
theorem items?_writeItems {vs : List Toml} (hplain : ∀ v ∈ vs, Plain depth v)
    (hread : ∀ v ∈ vs, ∀ fuel rest, Ends rest → (write v).length < fuel →
      value? depth fuel (write v ++ rest) = some (v, rest))
    (acc : List Toml) (hfuel : (writeItems vs).length < fuel) (rest : List Char) :
    items? depth fuel acc (skipBlanks (writeItems vs ++ '\n' :: ']' :: rest)) =
      some (.arr (acc.reverse ++ vs), rest) := by
  -- On the items still to come; those before them are in `acc`, the last one first.
  induction vs generalizing fuel acc with
  | nil =>
    obtain ⟨fuel, rfl⟩ := Nat.exists_eq_add_one.mpr (Nat.zero_lt_of_lt hfuel)
    rw [writeItems, List.nil_append, skipBlanks_newline, skipBlanks_cons (by decide), items?,
      List.append_nil]
  | cons v vs ih =>
    obtain ⟨hv, hvs⟩ := List.forall_mem_cons.mp hplain
    obtain ⟨hreadv, hreadvs⟩ := List.forall_mem_cons.mp hread
    obtain ⟨fuel, rfl⟩ := Nat.exists_eq_add_one.mpr (Nat.zero_lt_of_lt hfuel)
    obtain ⟨c, X, hwrite, hsolid, hc⟩ := hv.exists_cons_write
    obtain ⟨tail, htail⟩ : ∃ tail, tail = writeItems vs ++ '\n' :: ']' :: rest := ⟨_, rfl⟩
    have hlength : (write v).length + (writeItems vs).length < fuel := by
      simp [writeItems, itemIndent] at hfuel
      omega
    have htext : writeItems (v :: vs) ++ '\n' :: ']' :: rest =
        itemIndent ++ c :: (X ++ ',' :: tail) := by
      rw [writeItems, hwrite, htail]
      simp
    have hvalue : value? depth fuel (c :: (X ++ ',' :: tail)) = some (v, ',' :: tail) := by
      rw [← List.cons_append, ← hwrite]
      exact hreadv fuel _ (.comma tail) (by omega)
    rw [htext, skipBlanks_itemIndent hsolid,
      items?_comma hc hvalue (skipBlanks_cons (by decide) tail), htail,
      ih hvs hreadvs (v :: acc) (by omega)]
    simp

/-- A plain value reads back, with enough fuel, in front of what ends a value. -/
theorem value?_write (h : Plain depth v) (hrest : Ends rest) (hfuel : (write v).length < fuel) :
    value? depth fuel (write v ++ rest) = some (v, rest) := by
  obtain ⟨fuel, rfl⟩ := Nat.exists_eq_add_one.mpr (Nat.zero_lt_of_lt hfuel)
  induction h generalizing fuel rest with
  | str s =>
    have hread := Quoted.read?_write s.toList hrest.quoted
    rw [write]
    obtain ⟨q, X, hwrite, hq⟩ := Quoted.exists_cons_write s.toList
    have hplain : q ≠ '[' ∧ q ≠ '\x7b' := by obtain rfl | rfl := hq <;> decide
    rw [hwrite, List.cons_append] at hread ⊢
    rw [value?_cons hplain, if_pos hq, hread]
    exact congrArg (fun s => some (Toml.str s, rest)) String.ofList_toList
  | @int k m h =>
    have hread := Scalar.read?_writeInteger h hrest
    rw [write]
    obtain ⟨d, ds, hds, hd⟩ := Scalar.exists_cons_writeInteger m
    have hquote : ¬(d = '"' ∨ d = '\'') :=
      not_or.mpr ⟨hd '"' (by decide) rfl, hd '\'' (by decide) rfl⟩
    rw [hds, List.cons_append] at hread ⊢
    rw [value?_cons ⟨hd '[' (by decide) rfl, hd '\x7b' (by decide) rfl⟩, if_neg hquote, hread]
  | bool b =>
    have hread := Scalar.read?_writeBool b hrest
    rw [write]
    cases b with
    | false => exact (value?_cons (by decide) _).trans ((if_neg (by decide)).trans hread)
    | true => exact (value?_cons (by decide) _).trans ((if_neg (by decide)).trans hread)
  | @arr k vs h ih =>
    have hread : ∀ v ∈ vs, ∀ fuel rest, Ends rest → (write v).length < fuel →
        value? k fuel (write v ++ rest) = some (v, rest) := fun v hv fuel rest hrest hfuel => by
      obtain ⟨fuel, rfl⟩ := Nat.exists_eq_add_one.mpr (Nat.zero_lt_of_lt hfuel)
      exact ih v hv hrest fuel hfuel
    -- No item and one item stand on the line of the brackets, several on a line each.
    obtain _ | ⟨v, _ | ⟨w, vs⟩⟩ := vs
    · rw [write] at hfuel ⊢
      obtain ⟨fuel, rfl⟩ : ∃ n, fuel = n + 1 := Nat.exists_eq_add_one.mpr (by simp at hfuel; omega)
      show items? k (fuel + 1) [] (skipBlanks (']' :: rest)) = _
      rw [skipBlanks_cons (by decide), items?]
      rfl
    · obtain ⟨c, X, hwrite, hsolid, hc⟩ := (h v List.mem_cons_self).exists_cons_write
      rw [write] at hfuel ⊢
      simp at hfuel
      obtain ⟨fuel, rfl⟩ : ∃ n, fuel = n + 1 := Nat.exists_eq_add_one.mpr (by omega)
      have hvalue : value? k fuel (c :: (X ++ ']' :: rest)) = some (v, ']' :: rest) := by
        rw [← List.cons_append, ← hwrite]
        exact hread v List.mem_cons_self fuel _ (.bracket rest) (by omega)
      rw [hwrite]
      simp only [List.cons_append, List.append_assoc, List.nil_append]
      show items? k (fuel + 1) [] (skipBlanks (c :: (X ++ ']' :: rest))) = _
      rw [skipBlanks_cons hsolid, items?_last hc hvalue (skipBlanks_cons (by decide) rest)]
      rfl
    · rw [write_items] at hfuel ⊢
      simp only [List.length_cons, List.length_append] at hfuel
      simp only [List.cons_append, List.append_assoc, List.nil_append]
      exact items?_writeItems h hread [] (by omega) rest

/-- A plain value in a document reads back. -/
theorem readValue?_write (h : Plain nestingLimit v) (hrest : Ends rest) :
    readValue? (write v ++ rest) = some (v, rest) :=
  value?_write h hrest (by rw [List.length_append]; omega)

end SchemaEditor.Toml
