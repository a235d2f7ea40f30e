import SchemaEditor.Text.Blank
import SchemaEditor.Text.Casing

/-!
# Trimming and casing

Casing turns no other character into a blank, as the tables show. So a trimmed text is still
trimmed after its first character was cased, and trimming before or after makes no difference.
-/

namespace SchemaEditor.Text

variable {c : Char} {cs : List Char} {f : Char → List Char} {s : String}

/-! ### Casing and blanks -/

/-- The code points of the blanks. -/
def blanks : List Nat :=
  [9, 10, 11, 12, 13, 0x20, 0x85, 0xA0, 0x1680, 0x2000, 0x2001, 0x2002, 0x2003, 0x2004, 0x2005,
    0x2006, 0x2007, 0x2008, 0x2009, 0x200A, 0x2028, 0x2029, 0x202F, 0x205F, 0x3000]

theorem mem_blanks_of_isBlank (h : isBlank c = true) : c.toNat ∈ blanks := by
  simp only [isBlank, Bool.or_eq_true, Bool.and_eq_true, decide_eq_true_eq, beq_iff_eq] at h
  simp only [blanks, List.mem_cons, List.not_mem_nil, or_false]
  omega

theorem isBlank_ofNat {n : Nat} (h : n ∉ blanks) : isBlank (Char.ofNat n) = false := by
  refine Bool.eq_false_iff.mpr fun hb => ?_
  have hmem := mem_blanks_of_isBlank hb
  by_cases hv : n.isValidChar
  · rw [Char.ofNat, dif_pos hv] at hmem
    exact h hmem
  · rw [Char.ofNat, dif_neg hv] at hmem
    revert hmem
    decide

/-- The images of a run lie between blanks. -/
def Casing.Run.Clear (r : Casing.Run) : Prop :=
  ∀ b ∈ blanks, b < r.image ∨ r.image + (r.last - r.first) < b

instance (r : Casing.Run) : Decidable r.Clear := by
  unfold Casing.Run.Clear
  infer_instance

/-- A case form without blanks. -/
def Solid (f : Char → List Char) : Prop :=
  ∀ c, isBlank c = false → f c ≠ [] ∧ ∀ d ∈ f c, isBlank d = false

theorem Casing.solid_mapped {expansions : List (Nat × List Nat)} {runs : List Casing.Run}
    (he : ∀ e ∈ expansions, e.2 ≠ [] ∧ ∀ n ∈ e.2, n ∉ blanks) (hr : ∀ r ∈ runs, r.Clear) :
    Solid (Casing.mapped expansions runs) := by
  intro c hc
  unfold Casing.mapped
  split
  · next n codes hfind =>
    obtain ⟨hne, hcodes⟩ := he _ (List.mem_of_find?_eq_some hfind)
    refine ⟨by simpa using hne, fun d hd => ?_⟩
    obtain ⟨n, hn, rfl⟩ := List.mem_map.mp hd
    exact isBlank_ofNat (hcodes n hn)
  · split
    · next r hfind =>
      have hclear := hr r (List.mem_of_find?_eq_some hfind)
      have hmem := List.find?_some hfind
      simp only [Casing.Run.contains, Bool.and_eq_true, decide_eq_true_eq] at hmem
      refine ⟨List.cons_ne_nil _ _, fun d hd => ?_⟩
      obtain rfl := List.mem_singleton.mp hd
      refine isBlank_ofNat fun hb => ?_
      have hout := hclear _ hb
      simp only [Casing.Run.target] at hout
      omega
    · refine ⟨List.cons_ne_nil _ _, fun d hd => ?_⟩
      obtain rfl := List.mem_singleton.mp hd
      exact hc

theorem solid_upper : Solid upper :=
  Casing.solid_mapped (by decide +kernel) (by decide +kernel)

theorem solid_lower : Solid lower :=
  Casing.solid_mapped (by decide +kernel) (by decide +kernel)

theorem isBlank_of_isUppercase (h : isUppercase c = true) : isBlank c = false := by
  refine Bool.eq_false_iff.mpr fun hb => ?_
  have hnone : ∀ b ∈ blanks, ∀ r ∈ Casing.uppercaseRuns, r.contains b = false := by decide +kernel
  obtain ⟨r, hr, hc⟩ := List.any_eq_true.mp h
  cases (hnone _ (mem_blanks_of_isBlank hb) r hr).symm.trans hc

/-! ### Trimmed texts -/

theorem dropBlankEnd_append {ds : List Char} (hd : ∀ d ∈ ds, isBlank d = false) (cs : List Char) :
    dropBlankEnd (ds ++ cs) = ds ++ dropBlankEnd cs := by
  induction ds with
  | nil => rfl
  | cons d ds ih =>
    rw [List.cons_append, dropBlankEnd_cons_of_not_blank (hd d List.mem_cons_self),
      ih fun e he => hd e (List.mem_cons_of_mem _ he), List.cons_append]

/-- A text has nothing to trim if it neither begins nor ends with a blank. -/
theorem trimChars_concat (hc : ∀ d ∈ (cs ++ [c]).head?, isBlank d = false)
    (hlast : isBlank c = false) : trimChars (cs ++ [c]) = cs ++ [c] := by
  have hend : dropBlankEnd (cs ++ [c]) = cs ++ [c] := by
    clear hc
    induction cs with
    | nil => simp [dropBlankEnd, hlast]
    | cons d cs ih =>
      rw [List.cons_append, dropBlankEnd, ih]
      cases cs <;> rfl
  rw [trimChars]
  cases hl : cs ++ [c] with
  | nil => rfl
  | cons d ds =>
    rw [hl] at hc hend
    rw [List.dropWhile_cons_of_neg (by simp [hc d rfl]), hend]

/-- What is cut off a text at its two ends is blank. -/
theorem exists_append_trimChars (cs : List Char) :
    ∃ before after, cs = before ++ (trimChars cs ++ after) ∧
      (∀ c ∈ before, isBlank c = true) ∧ ∀ c ∈ after, isBlank c = true := by
  have hend (cs : List Char) :
      ∃ after, cs = dropBlankEnd cs ++ after ∧ ∀ c ∈ after, isBlank c = true := by
    induction cs with
    | nil => exact ⟨[], rfl, fun c hc => by cases hc⟩
    | cons c cs ih =>
      obtain ⟨after, hcs, hafter⟩ := ih
      rw [dropBlankEnd]
      split
      · next hnil =>
        rw [hnil, List.nil_append] at hcs
        split
        · next hc => exact ⟨c :: cs, rfl, List.forall_mem_cons.mpr ⟨hc, hcs ▸ hafter⟩⟩
        · exact ⟨cs, rfl, hcs ▸ hafter⟩
      · exact ⟨after, by rw [List.cons_append, ← hcs], hafter⟩
  obtain ⟨after, hafter, hblank⟩ := hend (cs.dropWhile isBlank)
  refine ⟨cs.takeWhile isBlank, after, ?_, List.all_eq_true.mp List.all_takeWhile, hblank⟩
  rw [trimChars, ← hafter, List.takeWhile_append_dropWhile]

/-- Blanks around a text without blanks are cut off. -/
theorem trimChars_append {before after : List Char} (hne : cs ≠ [])
    (hcs : ∀ c ∈ cs, isBlank c = false) (hbefore : ∀ c ∈ before, isBlank c = true)
    (hafter : ∀ c ∈ after, isBlank c = true) : trimChars (before ++ (cs ++ after)) = cs := by
  have hnone : dropBlankEnd after = [] := by
    induction after with
    | nil => rfl
    | cons c after ih =>
      rw [dropBlankEnd, ih fun d hd => hafter d (List.mem_cons_of_mem _ hd)]
      simp [hafter c List.mem_cons_self]
  obtain ⟨c, rest, rfl⟩ := List.exists_cons_of_ne_nil hne
  have hstart : (c :: rest ++ after).dropWhile isBlank = c :: rest ++ after :=
    List.dropWhile_cons_of_neg (by simp [hcs c List.mem_cons_self])
  rw [trimChars, List.dropWhile_append_of_pos hbefore, hstart, dropBlankEnd_append hcs, hnone,
    List.append_nil]

/-- A trimmed text begins with no blank, and its rest has no blank at the end. -/
theorem trimmed_cons (h : trimChars (c :: cs) = c :: cs) :
    isBlank c = false ∧ dropBlankEnd cs = cs := by
  have hc : isBlank c = false := by
    refine Bool.eq_false_iff.mpr fun hb => ?_
    have hlen := congrArg List.length h
    have hshort := (List.dropWhile_sublist (l := cs) (p := isBlank)).length_le
    have hend (l : List Char) : (dropBlankEnd l).length ≤ l.length := by
      induction l with
      | nil => exact Nat.le_refl _
      | cons d l ih =>
        simp only [dropBlankEnd]
        split
        · split <;> simp
        · next hne => simp only [List.length_cons]; omega
    have htrim := hend (cs.dropWhile isBlank)
    rw [trimChars, List.dropWhile_cons_of_pos hb, List.length_cons] at hlen
    omega
  refine ⟨hc, ?_⟩
  rw [trimChars, List.dropWhile_cons_of_neg (by simp [hc]), dropBlankEnd_cons_of_not_blank hc] at h
  exact (List.cons.inj h).2

/-- Casing the first character leaves a trimmed text trimmed, and no text is cased away. -/
theorem trim_mapFirst (hf : Solid f) (hs : trim s = s) (hne : s ≠ "") :
    trim (mapFirst f s) = mapFirst f s ∧ mapFirst f s ≠ "" := by
  have htrim : trimChars s.toList = s.toList := by rw [← toList_trim, hs]
  unfold mapFirst
  split
  · next hnil => exact absurd (String.toList_eq_nil_iff.mp hnil) hne
  · next c cs hcs =>
    rw [hcs] at htrim
    obtain ⟨hc, hend⟩ := trimmed_cons htrim
    obtain ⟨hsome, hsolid⟩ := hf c hc
    obtain ⟨d, ds, hd⟩ := List.exists_cons_of_ne_nil hsome
    constructor
    · have hfirst : isBlank d = false := hsolid d (hd ▸ List.mem_cons_self)
      rw [trim, String.toList_ofList, trimChars, hd, List.cons_append,
        List.dropWhile_cons_of_neg (by simp [hfirst]), ← List.cons_append, ← hd,
        dropBlankEnd_append hsolid, hend]
    · rw [hd]
      intro hempty
      have := congrArg String.toList hempty
      simp at this

/-- Casing the first character of a trimmed text leaves nothing to trim. -/
theorem trim_mapFirst_trim (hf : Solid f) (s : String) :
    trim (mapFirst f (trim s)) = mapFirst f (trim s) := by
  by_cases hs : trim s = ""
  · rw [hs]
    rfl
  · exact (trim_mapFirst hf (trim_trim s) hs).1

theorem trim_upperFirst (hs : trim s = s) (hne : s ≠ "") :
    trim (upperFirst s) = upperFirst s ∧ upperFirst s ≠ "" :=
  trim_mapFirst solid_upper hs hne

end SchemaEditor.Text
