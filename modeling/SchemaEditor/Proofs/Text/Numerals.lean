import SchemaEditor.Proofs.Text.Trimming
import SchemaEditor.Text.Double
import SchemaEditor.Text.Number
import Mathlib.Algebra.Group.Nat.Defs

/-!
# Numerals

What a written number looks like: which characters it has, how many of them, and where a zero may
stand. A number that is given may have zeros and a plus sign in front (`Numeral`). A number that is
padded to a width has that many digits if it fits, and the same value.
-/

namespace SchemaEditor.Text

variable {c : Char} {cs ds rest : List Char} {m n width : Nat}

/-! ### Runs of digits -/

theorem takeWhile_isDigit (hdigits : ∀ d ∈ ds, d.isDigit = true)
    (hrest : ∀ c ∈ rest.head?, c.isDigit = false) : (ds ++ rest).takeWhile Char.isDigit = ds := by
  rw [List.takeWhile_append_of_pos hdigits]
  cases rest with
  | nil => simp
  | cons c rest => simp [hrest c rfl]

theorem dropWhile_isDigit (hdigits : ∀ d ∈ ds, d.isDigit = true)
    (hrest : ∀ c ∈ rest.head?, c.isDigit = false) : (ds ++ rest).dropWhile Char.isDigit = rest := by
  rw [List.dropWhile_append_of_pos hdigits]
  cases rest with
  | nil => simp
  | cons c rest => simp [hrest c rfl]

namespace Decimal

theorem not_mem_digits (hc : c.isDigit = false) (n : Nat) : c ∉ digits n := fun h =>
  Bool.false_ne_true (hc.symm.trans (isDigit_of_mem_digits n c h))

theorem exists_cons_digits (n : Nat) : ∃ d ds, digits n = d :: ds ∧ d.isDigit = true := by
  obtain ⟨d, ds, hds⟩ := List.exists_cons_of_ne_nil (digits_ne_nil n)
  exact ⟨d, ds, hds, isDigit_of_mem_digits n d (hds ▸ List.mem_cons_self)⟩

theorem not_mem_ofNat (hc : c.isDigit = false) (n : Nat) : c ∉ (ofNat n).toList := by
  rw [ofNat, String.toList_ofList]
  exact not_mem_digits hc n

theorem ofNat_injective (h : ofNat m = ofNat n) : m = n :=
  digits_injective (String.ofList_inj.mp h)

/-- Only zero begins with a zero. -/
theorem head?_digits_ne_zero (h : 0 < n) : (digits n).head? ≠ some '0' := by
  induction n using digits.induct with
  | case1 n hn =>
    have hall : ∀ k : Fin 10, 0 < k.val → digitChar k ≠ '0' := by decide
    rw [digits, if_pos hn]
    simpa using hall ⟨n, hn⟩ h
  | case2 n hn ih =>
    obtain ⟨d, ds, hds, -⟩ := exists_cons_digits (n / 10)
    rw [digits, if_neg hn, hds]
    rw [hds] at ih
    exact ih (by omega)

theorem le_valueOnto (acc : Nat) (cs : List Char) : acc ≤ valueOnto acc cs := by
  induction cs generalizing acc with
  | nil => exact Nat.le_refl acc
  | cons c cs ih => exact Nat.le_trans (by omega) (ih (acc * 10 + (c.toNat - 48)))

theorem valueOnto_append (acc : Nat) (cs ds : List Char) :
    valueOnto acc (cs ++ ds) = valueOnto (valueOnto acc cs) ds :=
  List.foldl_append

theorem length_digits_le (hwidth : 0 < width) (h : n < 10 ^ width) :
    (digits n).length ≤ width := by
  induction n using digits.induct generalizing width with
  | case1 n hn =>
    rw [digits, if_pos hn]
    exact hwidth
  | case2 n hn ih =>
    obtain ⟨width, rfl⟩ : ∃ k, width = k + 1 := ⟨width - 1, by omega⟩
    have hpos : 0 < width := by
      obtain rfl | hpos := Nat.eq_zero_or_pos width
      · omega
      · exact hpos
    have hdiv : n / 10 < 10 ^ width := Nat.div_lt_of_lt_mul (by rwa [Nat.pow_succ'] at h)
    rw [digits, if_neg hn, List.length_append]
    exact Nat.succ_le_succ (ih hpos hdiv)

/-! ### Numbers that are given -/

/-- A number is given by at least one digit, with an optional plus sign in front. -/
def Numeral (cs : List Char) (n : Nat) : Prop :=
  ∃ ds, (cs = ds ∨ cs = '+' :: ds) ∧ ds ≠ [] ∧ (∀ d ∈ ds, d.isDigit = true) ∧ value ds = n

theorem numeral_digits (n : Nat) : Numeral (digits n) n :=
  ⟨digits n, .inl rfl, digits_ne_nil n, isDigit_of_mem_digits n, value_digits n⟩

theorem numeral_cons_plus :
    Numeral ('+' :: ds) n ↔ ds ≠ [] ∧ (∀ d ∈ ds, d.isDigit = true) ∧ value ds = n := by
  constructor
  · rintro ⟨ds', rfl | h, hne, hdigits, hvalue⟩
    · exact absurd (hdigits '+' List.mem_cons_self) (by decide)
    · obtain rfl := (List.cons.inj h).2
      exact ⟨hne, hdigits, hvalue⟩
  · exact fun h => ⟨ds, .inr rfl, h⟩

theorem numeral_iff (hplus : ∀ ds, cs ≠ '+' :: ds) :
    Numeral cs n ↔ cs ≠ [] ∧ (∀ d ∈ cs, d.isDigit = true) ∧ value cs = n := by
  constructor
  · rintro ⟨ds, rfl | h, hds⟩
    · exact hds
    · exact absurd h (hplus ds)
  · exact fun h => ⟨cs, .inl rfl, h⟩

theorem Numeral.ne_nil (h : Numeral cs n) : cs ≠ [] := by
  obtain ⟨ds, rfl | rfl, hne, -⟩ := h
  · exact hne
  · exact List.cons_ne_nil _ _

theorem Numeral.isDigit_or_plus (h : Numeral cs n) : ∀ c ∈ cs, c.isDigit = true ∨ c = '+' := by
  intro c hc
  obtain ⟨ds, rfl | rfl, -, hdigits, -⟩ := h
  · exact .inl (hdigits c hc)
  · exact (List.mem_cons.mp hc).symm.imp_left (hdigits c)

theorem read?_eq_some_iff :
    read? cs = some n ↔ cs ≠ [] ∧ (∀ c ∈ cs, c.isDigit = true) ∧ value cs = n := by
  simp [read?, and_assoc]

/-! ### Padding -/

theorem toList_padded (width n : Nat) :
    (padded width n).toList = List.replicate (width - (digits n).length) '0' ++ digits n := by
  simp [padded]

theorem isDigit_of_mem_padded (width n : Nat) :
    ∀ c ∈ (padded width n).toList, c.isDigit = true := by
  intro c hc
  rw [toList_padded, List.mem_append] at hc
  obtain hc | hc := hc
  · rw [List.eq_of_mem_replicate hc]
    rfl
  · exact isDigit_of_mem_digits n c hc

theorem padded_ne_nil (width n : Nat) : (padded width n).toList ≠ [] := by
  rw [toList_padded]
  exact List.append_ne_nil_of_right_ne_nil _ (digits_ne_nil n)

theorem exists_cons_padded (width n : Nat) :
    ∃ d ds, (padded width n).toList = d :: ds ∧ d.isDigit = true := by
  obtain ⟨d, ds, hds⟩ := List.exists_cons_of_ne_nil (padded_ne_nil width n)
  exact ⟨d, ds, hds, isDigit_of_mem_padded width n d (hds ▸ List.mem_cons_self)⟩

theorem length_padded (hwidth : 0 < width) (h : n < 10 ^ width) :
    (padded width n).toList.length = width := by
  have hlength := length_digits_le hwidth h
  rw [toList_padded, List.length_append, List.length_replicate]
  omega

theorem value_padded (width n : Nat) : value (padded width n).toList = n := by
  have hzeros (k : Nat) : valueOnto 0 (List.replicate k '0') = 0 := by
    induction k with
    | zero => rfl
    | succ k ih => exact ih
  rw [toList_padded, value, valueOnto_append, hzeros]
  exact value_digits n

end Decimal

/-! ### Numbers below a bound -/

open Decimal (Numeral valueOnto le_valueOnto)

theorem numberOnto_eq_ok_iff {bound acc : Nat} : numberOnto bound acc cs = .ok n ↔
    (∀ d ∈ cs, d.isDigit = true) ∧ valueOnto acc cs = n ∧ (cs ≠ [] → n < bound) := by
  induction cs generalizing acc with
  | nil => simp [numberOnto, valueOnto]
  | cons c cs ih =>
    have hnext : valueOnto acc (c :: cs) = valueOnto (acc * 10 + (c.toNat - 48)) cs := rfl
    have hle := le_valueOnto (acc * 10 + (c.toNat - 48)) cs
    rw [numberOnto, hnext, List.forall_mem_cons]
    by_cases hc : c.isDigit = true
    · rw [if_pos hc]
      by_cases hbound : acc * 10 + (c.toNat - 48) < bound
      · simp only [if_pos hbound, ih, hc, true_and]
        refine and_congr_right fun _ => and_congr_right fun hn => ⟨fun h _ => ?_, fun h _ => ?_⟩
        · cases cs with
          | nil => exact hn ▸ hbound
          | cons d ds => exact h (List.cons_ne_nil d ds)
        · exact h (List.cons_ne_nil c cs)
      · simp only [if_neg hbound]
        constructor
        · intro h
          cases h
        · rintro ⟨-, hn, h⟩
          have := h (List.cons_ne_nil c cs)
          omega
    · simp [hc]

/-- A number is accepted exactly if its value is below the bound. -/
theorem number_eq_ok_iff {bound : Nat} {s : String} :
    number bound s = .ok n ↔ Numeral s.toList n ∧ n < bound := by
  have hdigits {ds : List Char} (hne : ds ≠ []) : numberOnto bound 0 ds = .ok n ↔
      (ds ≠ [] ∧ (∀ d ∈ ds, d.isDigit = true) ∧ Decimal.value ds = n) ∧ n < bound := by
    simp only [numberOnto_eq_ok_iff, Decimal.value, hne, ne_eq, not_false_eq_true, forall_const,
      true_and, and_assoc]
  rw [number]
  split
  · next h =>
    refine iff_of_false ?_ fun hn => hn.1.ne_nil h
    intro h
    cases h
  · next h =>
    rw [h, Decimal.numeral_cons_plus]
    simp
  · next ds hne h =>
    rw [h, Decimal.numeral_cons_plus]
    exact hdigits hne
  · next hnil _ hplus =>
    rw [Decimal.numeral_iff hplus]
    exact hdigits hnil

/-! ### Blanks -/

theorem not_isBlank_of_isDigit (h : c.isDigit = true) : isBlank c = false := by
  have hclear : ∀ b ∈ blanks, b < 48 ∨ 57 < b := by decide
  have hrange : 48 ≤ c.toNat ∧ c.toNat ≤ 57 := by
    simpa [Char.isDigit, UInt32.le_iff_toNat_le] using h
  refine Bool.eq_false_iff.mpr fun hblank => ?_
  have hbounds := hclear c.toNat (mem_blanks_of_isBlank hblank)
  omega

/-! ### Doubles -/

/-- Rounding to a double moves a number by no more than the number itself. -/
theorem nearestDouble_le (n : Nat) : nearestDouble n ≤ 2 * n := by
  obtain rfl | hn := Nat.eq_zero_or_pos n
  · simp [nearestDouble]
  · have hunit : Nat.pow 2 (n.log2 - 52) ≤ n :=
      Nat.le_trans (Nat.pow_le_pow_right (by decide : 2 > 0) (Nat.sub_le n.log2 52))
        (Nat.log2_self_le (Nat.ne_of_gt hn))
    have hlow := Nat.div_mul_le_self n (Nat.pow 2 (n.log2 - 52))
    simp only [nearestDouble]
    split
    · rw [Nat.add_mul, Nat.one_mul]
      omega
    · omega

end SchemaEditor.Text
