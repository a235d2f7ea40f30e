import SchemaEditor.Uuid

/-!
# UUIDs that were written

The hyphens of a written UUID stand where the reader looks for them, and between them stand its
digits, which are in lower case already.
-/

namespace SchemaEditor.Uuid

variable {c : Char} {v w x y z : List Char}

theorem toLower_of_isLowerHex (h : isLowerHex c = true) : c.toLower = c := by
  have hupper : ¬ (c.val ≥ 'A'.val ∧ c.val ≤ 'Z'.val) := by
    simp only [isLowerHex, Char.isDigit, Bool.or_eq_true, Bool.and_eq_true, decide_eq_true_eq,
      Char.le_def, ge_iff_le, UInt32.le_iff_toNat_le] at h ⊢
    simp only [Char.reduceVal, UInt32.reduceToNat] at h ⊢
    omega
  exact dif_neg hupper

/-- The digits of a UUID are its digits in lower case. -/
theorem ofDigits?_digits (u : Uuid) : ofDigits? u.digits = some u := by
  have hlower : u.digits.map Char.toLower = u.digits :=
    (List.map_congr_left fun c hc => toLower_of_isLowerHex (u.isHex c hc)).trans (List.map_id _)
  simp only [ofDigits?, hlower]
  exact dif_pos ⟨u.length_eq, List.all_eq_true.mpr u.isHex⟩

/-- Five runs of digits of the right lengths with hyphens between them. -/
theorem unhyphenated?_hyphenated (hv : v.length = 8) (hw : w.length = 4) (hx : x.length = 4)
    (hy : y.length = 4) (hz : z.length = 12) :
    unhyphenated? (v ++ '-' :: (w ++ '-' :: (x ++ '-' :: (y ++ '-' :: z)))) =
      some (v ++ w ++ x ++ y ++ z) := by
  have hmarks (cs : List Char) (h : cs = v ++ '-' :: (w ++ '-' :: (x ++ '-' :: (y ++ '-' :: z)))) :
      cs.length = 36 ∧ cs[8]? = some '-' ∧ cs[13]? = some '-' ∧ cs[18]? = some '-' ∧
        cs[23]? = some '-' := by
    subst h
    simp [hv, hw, hx, hy, hz]
  rw [unhyphenated?, if_pos (hmarks _ rfl)]
  simp [List.drop_append, List.drop_of_length_le, hv, hw, hx, hy]

/-- A text that begins with a digit is neither in braces nor written as a name. -/
theorem unwrapped_of_isLowerHex (h : isLowerHex c = true) : unwrapped (c :: v) = c :: v := by
  have hbrace : ¬ ((c :: v).head? = some '\x7b' ∧ (c :: v).getLast? = some '\x7d' ∧
      (c :: v).length = 38) := by
    rintro ⟨hc, -⟩
    obtain rfl := Option.some.inj hc
    exact absurd h (by decide)
  have hname : urnMark.isPrefixOf (c :: v) = false := by
    refine Bool.eq_false_iff.mpr fun hmark => ?_
    obtain ⟨rest, hrest⟩ := List.isPrefixOf_iff_prefix.mp hmark
    obtain ⟨rfl, -⟩ := List.cons.inj hrest
    exact absurd h (by decide)
  rw [unwrapped, if_neg hbrace, hname]
  rfl

/-- A UUID reads back from its text. -/
theorem parse?_text (u : Uuid) : parse? u.text = some u := by
  have hlength := u.length_eq
  have hdigits : u.digits.take 8 ++ (u.digits.drop 8).take 4 ++ (u.digits.drop 12).take 4 ++
      (u.digits.drop 16).take 4 ++ u.digits.drop 20 = u.digits := by
    have hrun (i j : Nat) :
        (u.digits.drop i).take j ++ u.digits.drop (i + j) = u.digits.drop i := by
      rw [← List.drop_drop]
      exact List.take_append_drop j _
    rw [List.append_assoc, hrun 16 4, List.append_assoc, hrun 12 4, List.append_assoc, hrun 8 4,
      List.take_append_drop]
  have hruns := unhyphenated?_hyphenated (v := u.digits.take 8) (w := (u.digits.drop 8).take 4)
    (x := (u.digits.drop 12).take 4) (y := (u.digits.drop 16).take 4) (z := u.digits.drop 20)
    (by simp [hlength]) (by simp [hlength]) (by simp [hlength]) (by simp [hlength])
    (by simp [hlength])
  have hwrapped : unwrapped u.text.toList = u.text.toList := by
    obtain ⟨c, ds, hds⟩ := List.exists_cons_of_length_pos (hlength ▸ (by decide : 0 < 32))
    have hc : isLowerHex c = true := u.isHex c (hds ▸ List.mem_cons_self)
    rw [text, String.toList_ofList, hds]
    exact unwrapped_of_isLowerHex hc
  have hnot : u.text.toList.length ≠ 32 := by
    simp [text, hlength]
  rw [parse?, if_neg hnot, hwrapped, text, String.toList_ofList, hruns, Option.bind_some, hdigits,
    ofDigits?_digits]

end SchemaEditor.Uuid
