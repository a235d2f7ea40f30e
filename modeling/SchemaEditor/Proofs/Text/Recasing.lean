import SchemaEditor.Proofs.Text.Trimming

/-!
# Casing twice

The tables list no character that is itself the first of a case form under the same table: the
images of one run and the members of another lie apart, or between each other by parity. So a first
character that was cased is cased already, and casing a text twice is casing it once.
-/

namespace SchemaEditor.Text

namespace Casing

variable {expansions : List (Nat × List Nat)} {runs : List Run} {r q : Run} {n : Nat} {c : Char}

/-- Neither table lists the code point. -/
def unlisted (expansions : List (Nat × List Nat)) (runs : List Run) (n : Nat) : Bool :=
  (expansions.all fun e => e.1 != n) && runs.all fun r => !r.contains n

theorem mapped_of_unlisted (h : unlisted expansions runs c.toNat = true) :
    mapped expansions runs c = [c] := by
  simp only [unlisted, Bool.and_eq_true, List.all_eq_true] at h
  have hexpansion : expansions.find? (·.1 == c.toNat) = none :=
    List.find?_eq_none.mpr fun e he => by simpa using h.1 e he
  have hrun : runs.find? (·.contains c.toNat) = none :=
    List.find?_eq_none.mpr fun r hr => by simpa using h.2 r hr
  rw [mapped, hexpansion, hrun]

/-- A code point that is no character stands for the first one. -/
theorem unlisted_ofNat (hzero : unlisted expansions runs 0 = true)
    (h : unlisted expansions runs n = true) :
    unlisted expansions runs (Char.ofNat n).toNat = true := by
  by_cases hv : n.isValidChar
  · rw [Char.ofNat, dif_pos hv]
    exact h
  · rw [Char.ofNat, dif_neg hv]
    exact hzero

/-- The images of `r` are no members of `q`: they lie before or behind these, or have the other
parity where both step by two. -/
def Run.apart (r q : Run) : Bool :=
  q.last.blt r.image || (r.image + (r.last - r.first)).blt q.first ||
    q.step.beq 2 && (r.step.beq 2 || r.first.beq r.last) && ((r.image + q.first) % 2).beq 1

theorem Run.not_contains_of_apart (h : r.apart q = true) (hn : r.contains n = true) :
    q.contains (r.target n) = false := by
  refine Bool.eq_false_iff.mpr fun hq => ?_
  simp only [Run.contains, Bool.and_eq_true, decide_eq_true_eq, beq_iff_eq] at hn hq
  simp only [Run.target] at hq
  simp only [Run.apart, Bool.or_eq_true, Bool.and_eq_true, Nat.blt_eq, Nat.beq_eq] at h
  obtain ⟨⟨hfirst, hlast⟩, hstep⟩ := hn
  obtain ⟨⟨hqfirst, hqlast⟩, hqstep⟩ := hq
  obtain (hbefore | hbehind) | ⟨⟨hq2, hr2 | hr1⟩, hparity⟩ := h
  · omega
  · omega
  · rw [hr2] at hstep
    rw [hq2] at hqstep
    omega
  · rw [hq2] at hqstep
    omega

/-- The tables list no code point that begins a case form of their own. -/
def closed (expansions : List (Nat × List Nat)) (runs : List Run) : Bool :=
  unlisted expansions runs 0 &&
    (expansions.all fun e => e.2.head?.any (unlisted expansions runs)) &&
    runs.all fun r =>
      (expansions.all fun e => e.1.blt r.image || (r.image + (r.last - r.first)).blt e.1) &&
        runs.all r.apart

end Casing

variable {f : Char → List Char} {c : Char}

/-- A case form whose first character has itself as its case form. -/
def Stable (f : Char → List Char) : Prop := ∀ c, ∃ d ds, f c = d :: ds ∧ f d = [d]

theorem Casing.stable_mapped {expansions : List (Nat × List Nat)} {runs : List Casing.Run}
    (h : Casing.closed expansions runs = true) : Stable (Casing.mapped expansions runs) := by
  intro c
  simp only [Casing.closed, Bool.and_eq_true, List.all_eq_true, Option.any_eq_true] at h
  obtain ⟨⟨hzero, he⟩, hr⟩ := h
  have listed {n : Nat} (hn : Casing.unlisted expansions runs n = true) :
      Casing.mapped expansions runs (Char.ofNat n) = [Char.ofNat n] :=
    Casing.mapped_of_unlisted (Casing.unlisted_ofNat hzero hn)
  -- The first character is the image of an expansion or of a run, or the character itself.
  cases hfind : expansions.find? (·.1 == c.toNat) with
  | some e =>
    obtain ⟨n, hhead, hn⟩ := he e (List.mem_of_find?_eq_some hfind)
    obtain ⟨ns, hns⟩ := List.head?_eq_some_iff.mp hhead
    exact ⟨Char.ofNat n, ns.map Char.ofNat, by simp [Casing.mapped, hfind, hns], listed hn⟩
  | none =>
    cases hrun : runs.find? (·.contains c.toNat) with
    | some r =>
      obtain ⟨hexpansions, hruns⟩ := hr r (List.mem_of_find?_eq_some hrun)
      have hmem := List.find?_some hrun
      have himage : Casing.unlisted expansions runs (r.target c.toNat) = true := by
        simp only [Casing.unlisted, Bool.and_eq_true, List.all_eq_true, Bool.not_eq_true']
        refine ⟨fun e he => ?_, fun q hq => Casing.Run.not_contains_of_apart (hruns q hq) hmem⟩
        have hout := hexpansions e he
        simp only [Casing.Run.contains, Bool.and_eq_true, decide_eq_true_eq] at hmem
        simp only [Bool.or_eq_true, Nat.blt_eq] at hout
        rw [bne_iff_ne, Casing.Run.target]
        omega
      exact ⟨Char.ofNat (r.target c.toNat), [], by simp [Casing.mapped, hfind, hrun],
        listed himage⟩
    | none =>
      have hself : Casing.mapped expansions runs c = [c] := by rw [Casing.mapped, hfind, hrun]
      exact ⟨c, [], hself, hself⟩

theorem stable_upper : Stable upper := Casing.stable_mapped (by decide +kernel)

theorem stable_lower : Stable lower := Casing.stable_mapped (by decide +kernel)

/-- No lower-case form is longer than two characters. -/
theorem length_lower (c : Char) : (lower c).length ≤ 2 := by
  have hshort : ∀ e ∈ Casing.lowerExpansions, e.2.length ≤ 2 := by decide
  unfold lower Casing.mapped
  split
  · next hfind =>
    rw [List.length_map]
    exact hshort _ (List.mem_of_find?_eq_some hfind)
  · split <;> exact Nat.le_succ 1

theorem mapFirst_cons {s : String} {cs : List Char} (h : s.toList = c :: cs) :
    mapFirst f s = String.ofList (f c ++ cs) := by
  rw [mapFirst, h]

/-- Casing the first character twice is casing it once. -/
theorem mapFirst_mapFirst (hf : Stable f) (s : String) :
    mapFirst f (mapFirst f s) = mapFirst f s := by
  cases hs : s.toList with
  | nil => simp [mapFirst, hs]
  | cons c cs =>
    obtain ⟨d, ds, hd, hsame⟩ := hf c
    rw [mapFirst_cons hs, hd, List.cons_append, mapFirst_cons (String.toList_ofList ..), hsame,
      List.singleton_append]

end SchemaEditor.Text
