import SchemaEditor.Proofs.Text.Numerals
import SchemaEditor.Time.Timestamp
import Mathlib.Tactic.SplitIfs

/-!
# Timestamps that were written

Each part of a written moment is read by one step of the reader, which stops where the part ends:
after as many digits as the part has, or before a character that is no digit. A moment that is
written in UTC has no offset to be taken off.
-/

namespace SchemaEditor.Timestamp

open Text (isBlank)
open Text.Decimal (padded value)

variable {c : Char} {cs ds rest : List Char} {n width : Nat}

/-! ### Parts -/

/-- What is read step by step is read if each step is. -/
theorem read_step {α β : Type} {o : Option α} {a : α} {f : α → Option β} {b : β}
    (ha : o = some a) (hb : f a = some b) : (o >>= f) = some b :=
  Option.bind_eq_some_iff.mpr ⟨a, ha, hb⟩

theorem skipBlanks_cons (h : isBlank c = false) : skipBlanks (c :: cs) = c :: cs := by
  simp [skipBlanks, h]

theorem mark?_cons (h : isBlank c = false) : mark? c (c :: rest) = some rest := by
  rw [mark?, skipBlanks_cons h]
  exact if_pos rfl

/-- A number ends after the digits that it may have, or before a character that is no digit. -/
theorem number?_append (hdigits : ∀ d ∈ ds, d.isDigit = true) (hne : ds ≠ [])
    (hend : ds.length = width ∨ ds.length ≤ width ∧ ∀ c ∈ rest.head?, c.isDigit = false) :
    number? width (ds ++ rest) = some (value ds, rest) := by
  have hblank : skipBlanks (ds ++ rest) = ds ++ rest := by
    obtain ⟨d, ds, rfl⟩ := List.exists_cons_of_ne_nil hne
    exact skipBlanks_cons (Text.not_isBlank_of_isDigit (hdigits d List.mem_cons_self))
  have htaken : ((ds ++ rest).take width).takeWhile Char.isDigit = ds := by
    -- The width is used up, or what follows begins with no digit.
    have hstop : ∀ c ∈ (rest.take (width - ds.length)).head?, c.isDigit = false := by
      obtain hlength | ⟨-, hrest⟩ := hend
      · simp [hlength]
      · intro c hc
        rw [List.head?_take] at hc
        split at hc
        · cases hc
        · exact hrest c hc
    rw [List.take_append, List.take_of_length_le (by omega)]
    exact Text.takeWhile_isDigit hdigits hstop
  rw [number?, hblank]
  simp only [htaken]
  cases ds with
  | nil => exact absurd rfl hne
  | cons d ds => simp

theorem number?_padded (hwidth : 0 < width) (h : n < 10 ^ width) (rest : List Char) :
    number? width ((padded width n).toList ++ rest) = some (n, rest) := by
  have hvalue := Text.Decimal.value_padded width n
  rw [number?_append (Text.Decimal.isDigit_of_mem_padded width n)
    (Text.Decimal.padded_ne_nil width n) (.inl (Text.Decimal.length_padded hwidth h)), hvalue]

/-- The digits of a year behind a sign, up to the hyphen behind them. -/
theorem number?_signed (n : Nat) (rest : List Char) :
    number? ((padded 4 n).toList ++ '-' :: rest).length ((padded 4 n).toList ++ '-' :: rest) =
      some (n, '-' :: rest) := by
  have hstop : ∀ c ∈ ('-' :: rest).head?, c.isDigit = false := by
    rintro _ ⟨⟩
    rfl
  have hlength : (padded 4 n).toList.length ≤ ((padded 4 n).toList ++ '-' :: rest).length := by
    rw [List.length_append]
    exact Nat.le_add_right _ _
  have hnumber := number?_append (Text.Decimal.isDigit_of_mem_padded 4 n)
    (Text.Decimal.padded_ne_nil 4 n) (.inr ⟨hlength, hstop⟩)
  rwa [Text.Decimal.value_padded] at hnumber

theorem head?_padded_any (n : Nat) (rest : List Char) :
    ((padded width n).toList ++ rest).head?.any Char.isDigit = true := by
  obtain ⟨d, ds, hds, hd⟩ := Text.Decimal.exists_cons_padded width n
  simp [hds, hd]

/-- A year that begins with a digit is a number of at most four digits. -/
theorem year?_of_isDigit (h : c.isDigit = true) :
    year? (c :: cs) = (number? 4 (c :: cs)).map fun (n, rest) => ((n : Int), rest) := by
  rw [year?, skipBlanks_cons (Text.not_isBlank_of_isDigit h)]
  split
  · next heq =>
    obtain ⟨rfl, -⟩ := List.cons.inj heq
    exact absurd h (by decide)
  · next heq =>
    obtain ⟨rfl, -⟩ := List.cons.inj heq
    exact absurd h (by decide)
  · rfl

/-- A year of four digits, or with a sign in front, up to the hyphen behind it. -/
theorem year?_yearText (year : Int) (rest : List Char) :
    year? ((yearText year).toList ++ '-' :: rest) = some (year, '-' :: rest) := by
  unfold yearText
  split
  · have hnumber := number?_padded (n := year.toNat) (by decide : 0 < 4) (by omega) ('-' :: rest)
    obtain ⟨d, ds, hds, hd⟩ := Text.Decimal.exists_cons_padded 4 year.toNat
    have hyear : (year.toNat : Int) = year := by omega
    rw [hds, List.cons_append] at hnumber ⊢
    rw [year?_of_isDigit hd, hnumber]
    simp only [Option.map_some, hyear]
  · split
    · have hminus : "-".toList = ['-'] := rfl
      have hyear : -(year.natAbs : Int) = year := by omega
      rw [String.toList_append, List.append_assoc, year?, hminus, List.singleton_append,
        skipBlanks_cons rfl]
      simp only [head?_padded_any, number?_signed, if_true, Option.map_some, hyear]
    · have hplus : "+".toList = ['+'] := rfl
      have hyear : (year.natAbs : Int) = year := by omega
      rw [String.toList_append, List.append_assoc, year?, hplus, List.singleton_append,
        skipBlanks_cons rfl]
      simp only [head?_padded_any, number?_signed, if_true, Option.map_some, hyear]

/-- A fraction of some digits, up to the mark of the offset. -/
theorem fraction?_padded (hwidth : 0 < width) (hnine : width ≤ 9) (h : n < 10 ^ width) :
    fraction? ("." ++ padded width n ++ "Z").toList =
      some (n * Nat.pow 10 (9 - width), ['Z']) := by
  have hdigits := Text.Decimal.isDigit_of_mem_padded width n
  have hlength := Text.Decimal.length_padded hwidth h
  have hstop : ∀ c ∈ ['Z'].head?, c.isDigit = false := by
    rintro _ ⟨⟩
    rfl
  have hchars :
      ("." ++ padded width n ++ "Z").toList = '.' :: ((padded width n).toList ++ ['Z']) := by
    simp
  have htake : (padded width n).toList.take 9 = (padded width n).toList :=
    List.take_of_length_le (hlength.symm ▸ hnine)
  rw [hchars, fraction?, Text.takeWhile_isDigit hdigits hstop, htake,
    Text.dropWhile_isDigit hdigits hstop]
  split
  · next hnil => exact absurd hnil (Text.Decimal.padded_ne_nil width n)
  · rw [hlength, Text.Decimal.value_padded]

/-- A fraction of a second, up to the mark of the offset. -/
theorem fraction?_fractionText {nano : Nat} (h : nano < 1000000000) :
    fraction? (fractionText nano ++ "Z").toList = some (nano, ['Z']) := by
  unfold fractionText
  split
  · next hzero => simp [fraction?, hzero]
  · split
    · have hmillis : nano / 1000000 * Nat.pow 10 (9 - 3) = nano := by
        show nano / 1000000 * 1000000 = nano
        omega
      rw [fraction?_padded (by decide) (by decide) (by omega), hmillis]
    · split
      · have hmicros : nano / 1000 * Nat.pow 10 (9 - 6) = nano := by
          show nano / 1000 * 1000 = nano
          omega
        rw [fraction?_padded (by decide) (by decide) (by omega), hmicros]
      · rw [fraction?_padded (by decide) (by decide) (by omega)]
        simp

/-! ### Moments -/

theorem minusMinutes_zero {t : Timestamp} (hhour : t.hour ≤ 23) (hminute : t.minute ≤ 59) :
    t.minusMinutes 0 = t := by
  have hstart : ¬ (t.hour * 60 + t.minute - 0 : Int) < 0 := by omega
  have hend : ¬ minutesPerDay ≤ (t.hour * 60 + t.minute - 0 : Int) := by
    rw [minutesPerDay]
    omega
  simp only [minusMinutes, if_neg hstart, if_neg hend]
  have hour : ((t.hour * 60 + t.minute - 0 : Int) / 60).toNat = t.hour := by omega
  have minute : ((t.hour * 60 + t.minute - 0 : Int) % 60).toNat = t.minute := by omega
  rw [hour, minute]

theorem toList_text (t : Timestamp) : t.text.toList = (yearText t.year).toList ++
    '-' :: ((padded 2 t.month).toList ++ '-' :: ((padded 2 t.day).toList ++
      'T' :: ((padded 2 t.hour).toList ++ ':' :: ((padded 2 t.minute).toList ++
        ':' :: ((padded 2 t.second).toList ++ (fractionText t.nano ++ "Z").toList))))) := by
  simp [text, localText]

/-- A moment reads back from its text. -/
theorem parse?_text {t : Timestamp} (h : t.isValid = true) : parse? t.text = some t := by
  have hparts := h
  simp only [isValid, Bool.and_eq_true, decide_eq_true_eq] at hparts
  obtain ⟨⟨⟨⟨⟨⟨hyear, hmonth⟩, hday⟩, hhour⟩, hminute⟩, hsecond⟩, hnano⟩ := hparts
  have hdays : t.day ≤ 31 := by
    have hlast : daysOfMonth t.year t.month ≤ 31 := by
      unfold daysOfMonth
      split_ifs <;> decide
    omega
  have hoffset : offset? (skipBlanks ['Z']) = some (0, []) := by decide
  have hnumber {n : Nat} (hn : n < 100) (rest : List Char) :
      number? 2 ((padded 2 n).toList ++ rest) = some (n, rest) :=
    number?_padded (by decide) hn rest
  have hhyphen (rest : List Char) : mark? '-' ('-' :: rest) = some rest := mark?_cons rfl
  have hcolon (rest : List Char) : mark? ':' (':' :: rest) = some rest := mark?_cons rfl
  have hutc : t.minusMinutes 0 = t := minusMinutes_zero hhour hminute
  rw [parse?, toList_text]
  refine read_step (year?_yearText _ _) ?_
  refine read_step (hhyphen _) ?_
  refine read_step (hnumber (by omega) _) ?_
  refine read_step (hhyphen _) ?_
  refine read_step (hnumber (by omega) _) ?_
  refine read_step rfl ?_
  refine read_step (hnumber (by omega) _) ?_
  refine read_step (hcolon _) ?_
  refine read_step (hnumber (by omega) _) ?_
  refine read_step (hcolon _) ?_
  refine read_step (hnumber (by omega) _) ?_
  refine read_step (fraction?_fractionText hnano) ?_
  refine read_step hoffset ?_
  have hchecks : ((skipBlanks []).isEmpty && t.isValid && decide (Int.natAbs 0 < 1440)) = true := by
    rw [h]
    rfl
  refine (if_pos hchecks).trans ((if_pos ?_).trans ?_)
  · show yearInRange (t.minusMinutes 0).year = true
    rw [hutc, hyear]
  · exact congrArg some hutc

end SchemaEditor.Timestamp
