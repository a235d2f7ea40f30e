import SchemaEditor.Json.Decode
import SchemaEditor.Proofs.Json.Lexing

/-!
# Reading the written forms of other types

A record that is written with all its fields is found with all of them, and lists and optional
values read back if what they hold does. What a written form is nested into counts for the depth at
which a text is still read.
-/

namespace SchemaEditor.Json

variable {α : Type} {encode : α → Json} {read : Json → Option α} {d d' : Nat}

/-! ### Values that read back -/

/-- Reading the written form of every value gives it back. -/
def Inverts (encode : α → Json) (read : Json → Option α) : Prop := ∀ a, read (encode a) = some a

theorem Inverts.text : Inverts .str text := fun _ => rfl

theorem list_ofList {as : List α} (h : ∀ a ∈ as, read (encode a) = some a) :
    Json.list read (.ofList encode as) = some as := by
  show (as.map encode).mapM read = some as
  induction as with
  | nil => rfl
  | cons a as ih =>
    have hrest := ih fun b hb => h b (List.mem_cons_of_mem a hb)
    simp [h a List.mem_cons_self, hrest]

theorem nullable_ofOption {o : Option α} (h : ∀ a, o = some a → read (encode a) = some a)
    (hnull : ∀ a, encode a ≠ .null) : Json.nullable read (.ofOption encode o) = some o := by
  cases o with
  | none => rfl
  | some a =>
    show Json.nullable read (encode a) = some (some a)
    unfold Json.nullable
    split
    · next hencode => exact absurd hencode (hnull a)
    · rw [h a rfl]
      rfl

theorem Inverts.list (h : Inverts encode read) : Inverts (.ofList encode) (Json.list read) :=
  fun _ => list_ofList fun a _ => h a

theorem Inverts.nullable (h : Inverts encode read) (hnull : ∀ a, encode a ≠ .null) :
    Inverts (.ofOption encode) (Json.nullable read) :=
  fun _ => nullable_ofOption (fun a _ => h a) hnull

theorem natBelow_nat {bound n : Nat} (h : n < bound) : natBelow bound (.nat n) = some n := by
  simp [natBelow, nat, Text.Decimal.ofNat, Text.Decimal.read?_digits, h]

/-! ### Records -/

namespace Record

variable {name k : String} {j : Json} {entries : List (String × Json)} {positional : Bool}

@[simp] theorem get?_cons_self :
    (⟨(name, j) :: entries, positional⟩ : Record).get? name = some j := by
  simp [get?]

@[simp] theorem get?_cons_of_ne (h : name ≠ k) :
    (⟨(k, j) :: entries, positional⟩ : Record).get? name =
      (⟨entries, positional⟩ : Record).get? name := by
  rw [get?, List.lookup_cons, beq_false_of_ne h]
  rfl

theorem lookup_eq_some_iff_mem (h : (entries.map (·.1)).Nodup) :
    entries.lookup name = some j ↔ (name, j) ∈ entries := by
  induction entries with
  | nil => simp
  | cons e entries ih =>
    obtain ⟨k, i⟩ := e
    obtain ⟨hk, hentries⟩ := List.nodup_cons.mp h
    by_cases hname : name = k
    · subst hname
      have hout : (name, j) ∉ entries := fun hmem => hk (List.mem_map.mpr ⟨(name, j), hmem, rfl⟩)
      simp [hout, eq_comm]
    · rw [List.lookup_cons, beq_false_of_ne hname]
      simp [ih hentries, hname]

/-- In which order the fields of a record stand makes no difference to what is found. -/
theorem get?_perm {entries' : List (String × Json)} (h : (entries.map (·.1)).Nodup)
    (hperm : entries.Perm entries') (name : String) :
    (⟨entries, positional⟩ : Record).get? name = (⟨entries', positional⟩ : Record).get? name := by
  have h' : (entries'.map (·.1)).Nodup := (hperm.map _).nodup_iff.mp h
  refine Option.ext fun j => ?_
  exact (lookup_eq_some_iff_mem h).trans (hperm.mem_iff.trans (lookup_eq_some_iff_mem h').symm)

end Record

/-- A record that is written with all its fields. -/
theorem record_obj {names : List String} {fields : List (String × Json)} (strict : Bool)
    (hnames : fields.map (·.1) = names) (hnodup : names.Nodup) :
    record names strict (.obj fields) = some ⟨fields, false⟩ := by
  have hknown : fields.filter (fun f => names.contains f.1) = fields := by
    refine List.filter_eq_self.mpr fun f hf => ?_
    rw [List.contains_iff_mem, ← hnames]
    exact List.mem_map_of_mem hf
  rw [record]
  simp only [hknown]
  exact if_pos ⟨hnames ▸ hnodup, .inr trivial⟩

/-- A record that may have other fields. -/
theorem record_lenient (names : List String) (fields : List (String × Json)) :
    record names false (.obj fields) =
      if ((fields.filter fun f => names.contains f.1).map (·.1)).Nodup then
        some ⟨fields.filter fun f => names.contains f.1, false⟩
      else none := by
  simp [record]

/-! ### Depths -/

theorem Writable.mono {j : Json} (h : Writable d j) (hd : d ≤ d') : Writable d' j := by
  induction h generalizing d' with
  | null => exact .null
  | bool b => exact .bool b
  | nat h => exact .nat h
  | str s => exact .str s
  | arr _ ih =>
    obtain ⟨d', rfl⟩ : ∃ k, d' = k + 1 := ⟨d' - 1, by omega⟩
    exact .arr fun j hj => ih j hj (by omega)
  | obj _ ih =>
    obtain ⟨d', rfl⟩ : ∃ k, d' = k + 1 := ⟨d' - 1, by omega⟩
    exact .obj fun f hf => ih f hf (by omega)

theorem Writable.ofList {as : List α} (h : ∀ a ∈ as, Writable d (encode a)) :
    Writable (d + 1) (.ofList encode as) := by
  refine .arr fun j hj => ?_
  obtain ⟨a, ha, rfl⟩ := List.mem_map.mp hj
  exact h a ha

theorem Writable.ofOption {o : Option α} (h : ∀ a, o = some a → Writable d (encode a)) :
    Writable d (.ofOption encode o) := by
  cases o with
  | none => exact .null
  | some a => exact h a rfl

end SchemaEditor.Json
