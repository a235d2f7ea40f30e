import Mathlib.Data.List.Nodup
import Mathlib.Data.List.Perm.Subperm
import Mathlib.Order.Bounds.Defs
import SchemaEditor.Naming
import SchemaEditor.Proofs.Text.Recasing

/-!
# Endings, rules and free names

A name that is given to an indicator ends as all of them do. A name in the form of its rule is left
alone by the rule, except that of an indicator which begins with `is` before an upper-case
character: the rule drops an `is` before it lowers the first character, which may bring a new one.

The name found beside the names that are taken is none of them: the numbered names differ from each
other and from the base, so those of them that are taken leave room for one more. Its number is the
least that is free and at most the count of the names that are taken, so that a counter of 32 bits
comes to it. But a numbered name ends in a digit, so that it has no ending of letters any more.
-/

namespace SchemaEditor.Naming

variable {rule : Rule} {name base : String} {taken : List String} {i j : Nat}

/-! ### Endings -/

/-- The name ends as those of indicators do. -/
def IsIndicatorName (name : String) : Prop := indicatorEnding <:+ name.toList

instance (name : String) : Decidable (IsIndicatorName name) :=
  inferInstanceAs (Decidable (indicatorEnding <:+ name.toList))

theorem withEnding_of_isSuffix {ending : List Char} {s : String} (h : ending <:+ s.toList) :
    withEnding ending s = s := by
  rw [withEnding, if_pos (List.isSuffixOf_iff_suffix.mpr h)]

theorem isSuffix_withEnding (ending : List Char) (s : String) :
    ending <:+ (withEnding ending s).toList := by
  unfold withEnding
  split
  · next h => exact List.isSuffixOf_iff_suffix.mp h
  · rw [String.toList_append, String.toList_ofList]
    exact List.suffix_append _ _

/-- An ending is added behind the text, or nothing is. -/
theorem toList_withEnding (ending : List Char) (s : String) :
    (withEnding ending s).toList = s.toList ∨
      (withEnding ending s).toList = s.toList ++ ending := by
  unfold withEnding
  split
  · exact .inl rfl
  · rw [String.toList_append, String.toList_ofList]
    exact .inr rfl

theorem isIndicatorName_indicatorName (name : String) : IsIndicatorName (indicatorName name) := by
  unfold IsIndicatorName indicatorName
  exact isSuffix_withEnding _ _

/-! ### Rules -/

/-- The name begins with an `is` that the rule of indicators drops. -/
def BeginsWithIs (name : String) : Prop :=
  ∃ c cs, name.toList = 'i' :: 's' :: c :: cs ∧ Text.isUppercase c = true

theorem dropIs_of_not_beginsWithIs (h : ¬ BeginsWithIs name) :
    dropIs name.toList = name.toList := by
  rw [dropIs.eq_def]
  split
  · next c cs hcs =>
    rw [hcs, if_neg fun hc => h ⟨c, cs, hcs, hc⟩]
  · rfl

/-- What the rule of indicators keeps of a trimmed text does not begin with a blank. -/
theorem isBlank_of_dropIs {c : Char} {cs : List Char}
    (h : dropIs (Text.trimChars name.toList) = c :: cs) : Text.isBlank c = false := by
  have htrim := Text.trimChars_idem name.toList
  rw [dropIs.eq_def] at h
  split at h
  · split at h
    · next hupper =>
      obtain ⟨rfl, -⟩ := List.cons.inj h
      exact Text.isBlank_of_isUppercase hupper
    · obtain ⟨rfl, -⟩ := List.cons.inj h
      decide
  · rw [h] at htrim
    exact (Text.trimmed_cons htrim).1

/-- The name of an indicator without the ending that is added. -/
def indicatorStem (name : String) : String :=
  let stem := Text.lowerFirst (String.ofList (dropIs (Text.trimChars name.toList)))
  if stem = "" then "new" else stem

theorem indicatorName_eq (name : String) :
    indicatorName name = withEnding indicatorEnding (indicatorStem name) := rfl

theorem toList_indicatorStem {c : Char} {cs : List Char}
    (h : dropIs (Text.trimChars name.toList) = c :: cs) :
    (indicatorStem name).toList = Text.lower c ++ cs := by
  obtain ⟨d, ds, hlower, -⟩ := Text.stable_lower c
  have hstem : Text.lowerFirst (String.ofList (c :: cs)) = String.ofList (Text.lower c ++ cs) :=
    Text.mapFirst_cons (String.toList_ofList ..)
  rw [indicatorStem, h, hstem, if_neg (by simp [hlower]), String.toList_ofList]

/-- The name of an indicator begins with no blank and is in lower case there. -/
theorem indicatorName_cons (name : String) :
    ∃ d ds, (indicatorName name).toList = d :: ds ∧ Text.lower d = [d] ∧
      Text.isBlank d = false := by
  have hbefore : ∃ d ds, (indicatorStem name).toList = d :: ds ∧ Text.lower d = [d] ∧
      Text.isBlank d = false := by
    cases hkept : dropIs (Text.trimChars name.toList) with
    | nil =>
      refine ⟨'n', ['e', 'w'], ?_, by decide +kernel, by decide⟩
      rw [indicatorStem, hkept]
      rfl
    | cons c cs =>
      obtain ⟨d, ds, hlower, hstable⟩ := Text.stable_lower c
      have hsolid := (Text.solid_lower c (isBlank_of_dropIs hkept)).2 d
        (hlower ▸ List.mem_cons_self)
      refine ⟨d, ds ++ cs, ?_, hstable, hsolid⟩
      rw [toList_indicatorStem hkept, hlower, List.cons_append]
  obtain ⟨d, ds, hstem, hd, hblank⟩ := hbefore
  rw [indicatorName_eq]
  obtain hsame | hmore := toList_withEnding indicatorEnding (indicatorStem name)
  · exact ⟨d, ds, hsame.trans hstem, hd, hblank⟩
  · exact ⟨d, ds ++ indicatorEnding, by rw [hmore, hstem, List.cons_append], hd, hblank⟩

theorem trimChars_indicatorName (name : String) :
    Text.trimChars (indicatorName name).toList = (indicatorName name).toList := by
  obtain ⟨d, ds, hname, -, hblank⟩ := indicatorName_cons name
  obtain ⟨init, hinit⟩ := isIndicatorName_indicatorName name
  replace hinit : (init ++ ['I', 'n']) ++ ['d'] = (indicatorName name).toList := by
    rw [← hinit, List.append_assoc]
    rfl
  rw [← hinit]
  refine Text.trimChars_concat (fun e he => ?_) (by decide)
  rw [hinit, hname] at he
  obtain rfl := Option.some.inj he
  exact hblank

/-- The rule of indicators leaves a name in its form alone, unless it begins with an `is` again. -/
theorem indicatorName_indicatorName_iff (name : String) :
    indicatorName (indicatorName name) = indicatorName name ↔
      ¬ BeginsWithIs (indicatorName name) := by
  have htrim := trimChars_indicatorName name
  obtain ⟨d, ds, hname, hd, -⟩ := indicatorName_cons name
  have hending := isIndicatorName_indicatorName name
  generalize indicatorName name = t at *
  constructor
  · rintro hsame ⟨c, cs, hcs, hc⟩
    -- What stands for the `is` and the character behind it is never three characters long.
    have hdrop : dropIs (Text.trimChars t.toList) = c :: cs := by
      rw [htrim, hcs]
      exact if_pos hc
    have hshort := Text.length_lower c
    obtain ⟨e, es, hlower, -⟩ := Text.stable_lower c
    have hlength := congrArg (fun s => s.toList.length) hsame
    rw [indicatorName_eq] at hlength
    obtain hkept | hmore := toList_withEnding indicatorEnding (indicatorStem t)
    · simp only [hkept, toList_indicatorStem hdrop, hcs, List.length_append,
        List.length_cons] at hlength
      omega
    · have hthree : indicatorEnding.length = 3 := rfl
      simp only [hmore, toList_indicatorStem hdrop, hcs, hlower, List.length_append,
        List.length_cons, hthree] at hlength
      omega
  · intro h
    have hlower : Text.lowerFirst t = t := by
      rw [Text.lowerFirst, Text.mapFirst_cons hname, hd, List.singleton_append, ← hname,
        String.ofList_toList]
    have hne : t ≠ "" := by
      rintro rfl
      cases hname
    rw [indicatorName_eq, indicatorStem, htrim, dropIs_of_not_beginsWithIs h,
      String.ofList_toList, hlower, if_neg hne, withEnding_of_isSuffix hending]

theorem apply_trim (rule : Rule) (name : String) :
    rule.apply (Text.trim name) = rule.apply name := by
  simp only [Rule.apply, Text.trim_trim]

theorem apply_indicator (name : String) : Rule.indicator.apply name = indicatorName name := by
  rw [Rule.apply, indicatorName, Text.toList_trim, Text.trimChars_idem]
  rfl

/-- The form of a name has nothing to trim. -/
theorem trim_apply (rule : Rule) (name : String) :
    Text.trim (rule.apply name) = rule.apply name := by
  cases rule with
  | verbatim | fromType => exact Text.trim_trim name
  | upperFirst => exact Text.trim_mapFirst_trim Text.solid_upper name
  | lowerFirst => exact Text.trim_mapFirst_trim Text.solid_lower name
  | indicator =>
    rw [apply_indicator, Text.trim, trimChars_indicatorName, String.ofList_toList]

/-- No name that is more than blanks has an empty form. -/
theorem apply_ne_empty (rule : Rule) (hname : Text.trim name ≠ "") : rule.apply name ≠ "" := by
  have htrim := Text.trim_trim name
  cases rule with
  | verbatim | fromType => exact hname
  | upperFirst => exact (Text.trim_mapFirst Text.solid_upper htrim hname).2
  | lowerFirst => exact (Text.trim_mapFirst Text.solid_lower htrim hname).2
  | indicator =>
    obtain ⟨d, ds, hcons, -⟩ := indicatorName_cons name
    rw [apply_indicator]
    intro hempty
    rw [hempty] at hcons
    cases hcons

/-- Every rule but that of indicators leaves a name in its form alone. -/
theorem apply_apply (hrule : rule ≠ .indicator) (name : String) :
    rule.apply (rule.apply name) = rule.apply name := by
  have htrim := trim_apply rule name
  cases rule with
  | verbatim | fromType => exact htrim
  | upperFirst =>
    exact (congrArg Text.upperFirst htrim).trans (Text.mapFirst_mapFirst Text.stable_upper _)
  | lowerFirst =>
    exact (congrArg Text.lowerFirst htrim).trans (Text.mapFirst_mapFirst Text.stable_lower _)
  | indicator => exact absurd rfl hrule

theorem indicator_apply_apply_iff (name : String) :
    Rule.indicator.apply (Rule.indicator.apply name) = Rule.indicator.apply name ↔
      ¬ BeginsWithIs (Rule.indicator.apply name) := by
  simp only [apply_indicator]
  exact indicatorName_indicatorName_iff name

/-! ### Free names -/

theorem numbered_injective (h : numbered base i = numbered base j) : i = j := by
  have hlists := congrArg String.toList h
  simp only [numbered, Text.Decimal.ofNat, String.toList_append, String.toList_ofList,
    List.append_cancel_left_eq] at hlists
  exact Text.Decimal.digits_injective hlists

theorem numbered_ne (base : String) (i : Nat) : numbered base i ≠ base := by
  intro h
  have hlists := congrArg String.toList h
  simp only [numbered, Text.Decimal.ofNat, String.toList_append, String.toList_ofList] at hlists
  exact Text.Decimal.digits_ne_nil i (List.append_right_eq_self.mp hlists)

/-- Not all of the first numbered names are taken if the base is. -/
theorem exists_numbered_not_mem (h : base ∈ taken) :
    ∃ name ∈ (List.range taken.length).map fun i => numbered base (i + 1), name ∉ taken := by
  by_contra hall
  push Not at hall
  let numbers := (List.range taken.length).map fun i => numbered base (i + 1)
  have hnodup : (base :: numbers).Nodup := by
    refine List.nodup_cons.mpr ⟨fun hmem => ?_, List.Nodup.map (fun i j hij => ?_) List.nodup_range⟩
    · obtain ⟨i, -, hi⟩ := List.mem_map.mp hmem
      exact numbered_ne base (i + 1) hi
    · exact Nat.succ.inj (numbered_injective hij)
  have hsub : base :: numbers ⊆ taken := List.cons_subset.mpr ⟨h, hall⟩
  have hlength := (hnodup.subperm hsub).length_le
  simp only [numbers, List.length_cons, List.length_map, List.length_range] at hlength
  omega

/-- A taken base gets the least number that makes a free name of it, which is at most the count of
the names that are taken. -/
theorem uniqueName_of_mem (h : base ∈ taken) :
    ∃ n, IsLeast {k | 1 ≤ k ∧ numbered base k ∉ taken} n ∧ n ≤ taken.length ∧
      uniqueName base taken = numbered base n := by
  rw [uniqueName, if_pos h, List.find?_map]
  cases hfind : (List.range taken.length).find?
      ((fun name => decide (name ∉ taken)) ∘ fun i => numbered base (i + 1)) with
  | none =>
    obtain ⟨name, hname, hfree⟩ := exists_numbered_not_mem h
    obtain ⟨i, hi, rfl⟩ := List.mem_map.mp hname
    exact absurd (List.find?_eq_none.mp hfind i hi) (by simpa using hfree)
  | some i =>
    obtain ⟨hfree, hi, hbefore⟩ := List.find?_range_eq_some.mp hfind
    refine ⟨i + 1, ⟨⟨Nat.le_add_left 1 i, by simpa using hfree⟩, ?_⟩, List.mem_range.mp hi, rfl⟩
    rintro k ⟨hk, hkfree⟩
    by_contra hlt
    have htaken := hbefore (k - 1) (by omega)
    rw [Function.comp_apply, Nat.sub_add_cancel hk] at htaken
    exact hkfree (by simpa using htaken)

/-- A free name is the base, or the base is taken and has a number behind it. -/
theorem uniqueName_cases (base : String) (taken : List String) :
    base ∉ taken ∧ uniqueName base taken = base ∨
      base ∈ taken ∧ ∃ i, numbered base i ∉ taken ∧ uniqueName base taken = numbered base i := by
  by_cases h : base ∈ taken
  · obtain ⟨n, ⟨⟨-, hfree⟩, -⟩, -, hname⟩ := uniqueName_of_mem h
    exact .inr ⟨h, n, hfree, hname⟩
  · exact .inl ⟨h, if_neg h⟩

theorem uniqueName_not_mem (base : String) (taken : List String) :
    uniqueName base taken ∉ taken := by
  obtain ⟨hfree, hname⟩ | ⟨-, i, hfree, hname⟩ := uniqueName_cases base taken
  · rwa [hname]
  · rwa [hname]

theorem not_isIndicatorName_numbered (base : String) (i : Nat) :
    ¬ IsIndicatorName (numbered base i) := by
  intro h
  obtain ⟨init, c, hdigits⟩ :=
    (List.eq_nil_or_concat _).resolve_left (Text.Decimal.digits_ne_nil i)
  rw [List.concat_eq_append] at hdigits
  have hdigit : c.isDigit = true := Text.Decimal.isDigit_of_mem_digits i c (by simp [hdigits])
  rw [IsIndicatorName, numbered, Text.Decimal.ofNat, String.toList_append, String.toList_ofList,
    hdigits, ← List.append_assoc, List.suffix_concat_iff] at h
  obtain hnil | ⟨t, ht, -⟩ := h
  · cases hnil
  · replace ht : ['I', 'n'] ++ ['d'] = t ++ [c] := ht
    obtain ⟨-, hlast⟩ := List.append_inj' ht rfl
    obtain rfl := List.singleton_inj.mp hlast
    cases hdigit

theorem isIndicatorName_uniqueName_iff (h : IsIndicatorName base) :
    IsIndicatorName (uniqueName base taken) ↔ base ∉ taken := by
  obtain ⟨hfree, hsame⟩ | ⟨htaken, i, -, hnumbered⟩ := uniqueName_cases base taken
  · rw [hsame]
    exact iff_of_true h hfree
  · rw [hnumbered]
    exact iff_of_false (not_isIndicatorName_numbered base i) (not_not_intro htaken)

/-! ### Counting in 32 bits -/

theorem toNat_succ {n : UInt32} (h : n.toNat + 1 < UInt32.size) : (n + 1).toNat = n.toNat + 1 := by
  rw [UInt32.toNat_add]
  exact Nat.mod_eq_of_lt h

/-- The first number from `n` on whose name is free. The counter is moved on before the number that
it had is tried; `none` if it would run over. -/
def firstFree? (base : String) (taken : List String) (n : UInt32) : Option UInt32 :=
  if n.toNat + 1 < UInt32.size then
    if numbered base n.toNat ∈ taken then firstFree? base taken (n + 1) else some n
  else none
termination_by UInt32.size - n.toNat
decreasing_by
  have := toNat_succ ‹n.toNat + 1 < UInt32.size›
  omega

/-- The counter comes to the first free name as long as it need not run over. -/
theorem firstFree?_eq_some {n last : UInt32} (hle : n ≤ last)
    (hfit : last.toNat + 1 < UInt32.size) (hfree : numbered base last.toNat ∉ taken)
    (hbefore : ∀ k, n.toNat ≤ k → k < last.toNat → numbered base k ∈ taken) :
    firstFree? base taken n = some last := by
  rw [UInt32.le_iff_toNat_le] at hle
  induction hd : last.toNat - n.toNat generalizing n with
  | zero =>
    obtain rfl : n = last := UInt32.toNat_inj.mp (by omega)
    rw [firstFree?, if_pos hfit, if_neg hfree]
  | succ d ih =>
    have hroom : n.toNat + 1 < UInt32.size := by omega
    have hnext := toNat_succ hroom
    rw [firstFree?, if_pos hroom, if_pos (hbefore _ (Nat.le_refl _) (by omega))]
    exact ih (by omega) (fun k hk => hbefore k (by omega)) (by omega)

/-- The name that is found is free. It is the base if that is free, and otherwise the base with the
least number from 1 on that makes a free name of it. This number is at most the count of the names
that are taken, so a counter of 32 bits that starts at 1 comes to it and does not run over. -/
theorem uniqueName_fresh_least (base : String) (taken : List String)
    (hfit : taken.length < UInt32.size - 1) :
    uniqueName base taken ∉ taken ∧ (base ∉ taken → uniqueName base taken = base) ∧
      (base ∈ taken → ∃ n : UInt32, firstFree? base taken 1 = some n ∧
        uniqueName base taken = numbered base n.toNat ∧ n.toNat ≤ taken.length ∧
        IsLeast {k | 1 ≤ k ∧ numbered base k ∉ taken} n.toNat) := by
  refine ⟨uniqueName_not_mem base taken, fun h => if_neg h, fun h => ?_⟩
  obtain ⟨n, hleast, hle, hname⟩ := uniqueName_of_mem h
  obtain ⟨⟨hpos, hfree⟩, hmin⟩ := id hleast
  have hn : n < UInt32.size := by omega
  have hnat : (UInt32.ofNatLT n hn).toNat = n := UInt32.toNat_ofNatLT
  refine ⟨UInt32.ofNatLT n hn, firstFree?_eq_some ?_ ?_ ?_ ?_, ?_⟩
  · rw [UInt32.le_iff_toNat_le, hnat]
    exact hpos
  · omega
  · rwa [hnat]
  · intro k hk hlt
    by_contra hkfree
    exact absurd (hmin ⟨hk, hkfree⟩) (by omega)
  · rw [hnat]
    exact ⟨hname, hle, hleast⟩

/-- A gap among the numbers that are taken is filled, also if a name is taken twice. -/
theorem uniqueName_fresh_least_gap :
    ["a", "a1", "a3", "a1"].length < UInt32.size - 1 ∧
      uniqueName "a" ["a", "a1", "a3", "a1"] = "a2" ∧
      firstFree? "a" ["a", "a1", "a3", "a1"] 1 = some 2 := by
  have hfit : ["a", "a1", "a3", "a1"].length < UInt32.size - 1 := by decide
  obtain ⟨-, -, htaken⟩ := uniqueName_fresh_least "a" ["a", "a1", "a3", "a1"] hfit
  obtain ⟨n, hfound, hname, -, ⟨hpos, hfree⟩, hmin⟩ := htaken (by decide)
  have htwo : n.toNat ≤ 2 := hmin ⟨by decide, by decide +kernel⟩
  have hone : n.toNat ≠ 1 := by
    intro h
    rw [h] at hfree
    exact hfree (by decide +kernel)
  obtain rfl : n = 2 := UInt32.toNat_inj.mp (by rw [show (2 : UInt32).toNat = 2 from rfl]; omega)
  exact ⟨hfit, hname.trans (by decide +kernel), hfound⟩

end SchemaEditor.Naming
