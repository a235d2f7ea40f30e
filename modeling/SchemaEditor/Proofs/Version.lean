import Mathlib.Tactic.SplitIfs
import SchemaEditor.Proofs.Text.Numerals
import SchemaEditor.Version

/-!
# Versions and their texts

`Written` says which texts give which version: between blanks there are one to three numbers with
points between them, and numbers that are missing are zero. A text is read exactly if it is such a
text. The text that is written for a version is one of them, so it reads back, whatever the text was
from which the version had been read. Versions order by their numbers, the major number first.
-/

namespace SchemaEditor.Version

open Text.Decimal (Numeral)

variable {a b v : Version} {s : String} {cs : List Char} {n : UInt32}

/-! ### Order -/

/-- Versions order by their three numbers, the major number first. -/
theorem lt_iff : a < b ↔ a.major < b.major ∨ a.major = b.major ∧
    (a.minor < b.minor ∨ a.minor = b.minor ∧ a.patch < b.patch) := by
  show a.rank < b.rank ↔ _
  have ha := a.minor.toNat_lt
  have hb := b.minor.toNat_lt
  have ha' := a.patch.toNat_lt
  have hb' := b.patch.toNat_lt
  simp only [rank, UInt32.size, UInt32.lt_iff_toNat_lt, ← UInt32.toNat_inj]
  omega

theorem lt_or_eq_of_le (h : a ≤ b) : a < b ∨ a = b :=
  (Nat.lt_or_eq_of_le h).imp_right rank_injective

theorem isMinor_iff : a.isMinor = true ↔ a.minor ≠ 0 ∨ a.patch ≠ 0 := by
  simp [isMinor, UInt32.pos_iff_ne_zero]

/-- Among versions of one major number, the minor numbers decide first and then the patch
numbers. -/
theorem lt_iff_of_major_eq (h : a.major = b.major) :
    a < b ↔ a.minor < b.minor ∨ a.minor = b.minor ∧ a.patch < b.patch := by
  rw [lt_iff, h]
  simp

theorem le_iff_of_major_eq (h : a.major = b.major) :
    a ≤ b ↔ a.minor < b.minor ∨ a.minor = b.minor ∧ a.patch ≤ b.patch := by
  have hle : a ≤ b ↔ ¬ b < a := Nat.not_lt.symm
  rw [hle, lt_iff_of_major_eq h.symm]
  simp only [UInt32.lt_iff_toNat_lt, UInt32.le_iff_toNat_le, ← UInt32.toNat_inj]
  omega

theorem cmp_of_major_eq (h : a.major = b.major) :
    a.cmp b = (compare a.minor b.minor).then (compare a.patch b.patch) := by
  have hlt : a.rank < b.rank ↔ _ := lt_iff_of_major_eq h
  have hgt : b.rank < a.rank ↔ _ := lt_iff_of_major_eq h.symm
  have hnat : compare a.rank b.rank = compareOfLessAndEq a.rank b.rank := rfl
  have hminor : compare a.minor b.minor = compareOfLessAndEq a.minor b.minor := rfl
  have hpatch : compare a.patch b.patch = compareOfLessAndEq a.patch b.patch := rfl
  rw [cmp, hnat, hminor, hpatch]
  simp only [UInt32.lt_iff_toNat_lt, ← UInt32.toNat_inj] at hlt hgt
  simp only [compareOfLessAndEq, UInt32.lt_iff_toNat_lt, ← UInt32.toNat_inj]
  split_ifs <;> first | rfl | omega

/-! ### Texts -/

/-- The numbers of a version with points between them; the last one or two may be missing. -/
inductive Dotted : List Char → Version → Prop
  | major {cs x} (h : Numeral cs x.toNat) : Dotted cs ⟨x, 0, 0⟩
  | minor {cs ds x y} (h : Numeral cs x.toNat) (h' : Numeral ds y.toNat) :
      Dotted (cs ++ '.' :: ds) ⟨x, y, 0⟩
  | patch {cs ds es x y z} (h : Numeral cs x.toNat) (h' : Numeral ds y.toNat)
      (h'' : Numeral es z.toNat) : Dotted (cs ++ '.' :: (ds ++ '.' :: es)) ⟨x, y, z⟩

/-- The text gives the version, with blanks around it or without. -/
def Written (s : String) (v : Version) : Prop :=
  ∃ before inner after, s.toList = before ++ (inner ++ after) ∧ Dotted inner v ∧
    (∀ c ∈ before, Text.isBlank c = true) ∧ ∀ c ∈ after, Text.isBlank c = true

theorem number?_eq_some_iff : number? cs = some n ↔ Numeral cs n.toNat := by
  have hread : number? cs = some n ↔ Text.Decimal.read? (unsigned cs) = some n.toNat := by
    have hlt := n.toNat_lt
    rw [number?]
    split
    · next k hk =>
      rw [hk]
      split
      · simp [← UInt32.toNat_inj]
      · simp only [UInt32.size] at *
        simp only [Option.some.injEq, reduceCtorEq, false_iff]
        omega
    · next hnone => simp [hnone]
  rw [hread, Text.Decimal.read?_eq_some_iff]
  unfold unsigned
  split
  · exact Text.Decimal.numeral_cons_plus.symm
  · next hplus => exact (Text.Decimal.numeral_iff hplus).symm

theorem point_not_mem (h : Numeral cs n.toNat) : '.' ∉ cs := fun hmem => by
  obtain hdigit | hplus := h.isDigit_or_plus '.' hmem
  · exact absurd hdigit (by decide)
  · exact absurd hplus (by decide)

namespace Dotted

theorem ne_nil (h : Dotted cs v) : cs ≠ [] := by
  cases h with
  | major h => exact h.ne_nil
  | minor | patch => simp

theorem not_isBlank (h : Dotted cs v) : ∀ c ∈ cs, Text.isBlank c = false := by
  have hpoint : Text.isBlank '.' = false := by decide
  have hnumeral {cs : List Char} {n : Nat} (h : Numeral cs n) :
      ∀ c ∈ cs, Text.isBlank c = false := fun c hc => by
    obtain hdigit | rfl := h.isDigit_or_plus c hc
    · exact Text.not_isBlank_of_isDigit hdigit
    · decide
  cases h with
  | major h => exact hnumeral h
  | minor h h' =>
    simp only [List.forall_mem_append, List.forall_mem_cons]
    exact ⟨hnumeral h, hpoint, hnumeral h'⟩
  | patch h h' h'' =>
    simp only [List.forall_mem_append, List.forall_mem_cons]
    exact ⟨hnumeral h, hpoint, hnumeral h', hpoint, hnumeral h''⟩

end Dotted

/-- What is read between the blanks is what stands there. -/
theorem parse?_eq_some_iff_dotted :
    parse? s = some v ↔ Dotted (Text.trimChars s.toList) v := by
  generalize hcs : Text.trimChars s.toList = cs
  constructor
  · intro h
    rw [parse?, hcs] at h
    split at h
    · next x hfields =>
      obtain ⟨-, ⟨-, rfl⟩ | ⟨rest, rfl, hrest⟩⟩ := Text.of_fields_eq_cons hfields
      · simp only [Option.bind_eq_bind, Option.bind_eq_some_iff, Option.pure_def,
          Option.some.injEq, number?_eq_some_iff] at h
        obtain ⟨i, hi, rfl⟩ := h
        exact .major hi
      · exact absurd hrest (Text.fields_ne_nil _ _)
    · next x y hfields =>
      obtain ⟨-, ⟨hnil, -⟩ | ⟨rest, rfl, hrest⟩⟩ := Text.of_fields_eq_cons hfields
      · cases hnil
      obtain ⟨-, ⟨-, rfl⟩ | ⟨rest', rfl, hrest'⟩⟩ := Text.of_fields_eq_cons hrest
      · simp only [Option.bind_eq_bind, Option.bind_eq_some_iff, Option.pure_def,
          Option.some.injEq, number?_eq_some_iff] at h
        obtain ⟨i, hi, j, hj, rfl⟩ := h
        exact .minor hi hj
      · exact absurd hrest' (Text.fields_ne_nil _ _)
    · next x y z hfields =>
      obtain ⟨-, ⟨hnil, -⟩ | ⟨rest, rfl, hrest⟩⟩ := Text.of_fields_eq_cons hfields
      · cases hnil
      obtain ⟨-, ⟨hnil, -⟩ | ⟨rest', rfl, hrest'⟩⟩ := Text.of_fields_eq_cons hrest
      · cases hnil
      obtain ⟨-, ⟨-, rfl⟩ | ⟨rest'', rfl, hrest''⟩⟩ := Text.of_fields_eq_cons hrest'
      · simp only [Option.bind_eq_bind, Option.bind_eq_some_iff, Option.pure_def,
          Option.some.injEq, number?_eq_some_iff] at h
        obtain ⟨i, hi, j, hj, k, hk, rfl⟩ := h
        exact .patch hi hj hk
      · exact absurd hrest'' (Text.fields_ne_nil _ _)
    · cases h
  · intro h
    rw [parse?, hcs]
    cases h with
    | major h =>
      rw [Text.fields_of_not_mem (point_not_mem h)]
      simp [number?_eq_some_iff.mpr h]
    | minor h h' =>
      rw [Text.fields_append_cons (point_not_mem h), Text.fields_of_not_mem (point_not_mem h')]
      simp [number?_eq_some_iff.mpr h, number?_eq_some_iff.mpr h']
    | patch h h' h'' =>
      rw [Text.fields_append_cons (point_not_mem h), Text.fields_append_cons (point_not_mem h'),
        Text.fields_of_not_mem (point_not_mem h'')]
      simp [number?_eq_some_iff.mpr h, number?_eq_some_iff.mpr h', number?_eq_some_iff.mpr h'']

/-- A text is read as a version exactly if it gives the version. -/
theorem parse?_eq_some_iff : parse? s = some v ↔ Written s v := by
  rw [parse?_eq_some_iff_dotted]
  constructor
  · intro h
    obtain ⟨before, after, hs, hbefore, hafter⟩ := Text.exists_append_trimChars s.toList
    exact ⟨before, _, after, hs, h, hbefore, hafter⟩
  · rintro ⟨before, inner, after, hs, h, hbefore, hafter⟩
    rwa [hs, Text.trimChars_append h.ne_nil h.not_isBlank hbefore hafter]

theorem written_text (v : Version) : Written v.text v := by
  refine ⟨[], v.text.toList, [], by simp, ?_, by simp, by simp⟩
  have htext : v.text.toList = Text.Decimal.digits v.major.toNat ++
      '.' :: (Text.Decimal.digits v.minor.toNat ++ '.' :: Text.Decimal.digits v.patch.toNat) := by
    simp [text, Text.Decimal.ofNat]
  rw [htext]
  exact .patch (Text.Decimal.numeral_digits _) (Text.Decimal.numeral_digits _)
    (Text.Decimal.numeral_digits _)

/-- A version reads back from its text. -/
theorem parse?_text (v : Version) : parse? v.text = some v :=
  parse?_eq_some_iff.mpr (written_text v)

theorem parse_eq_ok_iff : parse s = .ok v ↔ parse? s = some v := by
  unfold parse
  split
  · next h => rw [h, Except.ok.injEq, Option.some.injEq]
  · next h => simp [h]

/-- Exactly the texts that give a version are read, as that version. What is written for a version
reads back, also if the version was read from another text of it. However they were written,
versions of one major number order by the minor and then by the patch number. -/
theorem texts_give_versions :
    (∀ s v, parse s = .ok v ↔ Written s v) ∧
      (∀ v, parse v.text = .ok v) ∧
      (∀ s v, parse s = .ok v → parse v.text = .ok v) ∧
      ∀ s t a b, parse s = .ok a → parse t = .ok b → a.major = b.major →
        (a < b ↔ a.minor < b.minor ∨ a.minor = b.minor ∧ a.patch < b.patch) ∧
        (a ≤ b ↔ a.minor < b.minor ∨ a.minor = b.minor ∧ a.patch ≤ b.patch) ∧
        a.cmp b = (compare a.minor b.minor).then (compare a.patch b.patch) := by
  have htext (v : Version) : parse v.text = .ok v := parse_eq_ok_iff.mpr (parse?_text v)
  refine ⟨fun s v => parse_eq_ok_iff.trans parse?_eq_some_iff, htext, fun _ v _ => htext v,
    fun _ _ _ _ _ _ h => ⟨lt_iff_of_major_eq h, le_iff_of_major_eq h, cmp_of_major_eq h⟩⟩

/-- A version that is written with blanks, a sign and a zero in front comes after an earlier one. -/
theorem texts_give_versions_spaced :
    parse "\u00a0+1.02\n" = .ok ⟨1, 2, 0⟩ ∧ parse "1.1.9" = .ok ⟨1, 1, 9⟩ ∧
      parse (⟨1, 2, 0⟩ : Version).text = .ok ⟨1, 2, 0⟩ ∧ (⟨1, 1, 9⟩ : Version) < ⟨1, 2, 0⟩ := by
  obtain ⟨hread, -, hback, horder⟩ := texts_give_versions
  have hspaced : parse "\u00a0+1.02\n" = .ok ⟨1, 2, 0⟩ := by
    refine (hread _ _).mpr ⟨['\u00a0'], ['+', '1', '.', '0', '2'], ['\n'], by decide +kernel, ?_,
      List.forall_mem_singleton.mpr rfl, List.forall_mem_singleton.mpr rfl⟩
    exact .minor ⟨['1'], .inr rfl, List.cons_ne_nil _ _, by simp, rfl⟩
      ⟨['0', '2'], .inl rfl, List.cons_ne_nil _ _, by simp, rfl⟩
  have hplain : parse "1.1.9" = .ok ⟨1, 1, 9⟩ := parse_eq_ok_iff.mpr (by decide +kernel)
  exact ⟨hspaced, hplain, hback _ _ hspaced,
    (horder _ _ _ _ hplain hspaced rfl).1.mpr (.inl (by decide))⟩

end SchemaEditor.Version
