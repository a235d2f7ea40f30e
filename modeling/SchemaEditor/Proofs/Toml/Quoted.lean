import SchemaEditor.Proofs.Text.Numerals
import SchemaEditor.Toml.Quoted
import Mathlib.Tactic.SplitIfs

/-!
# Quoted texts read back

Each of the four forms gives the text back that was written in it, whatever its characters are, in
front of anything that does not begin with a quote. In triple quotes, one or two quotes right before
the closing ones belong to the text. So the texts in triple quotes are read along with the quotes
that come before each place.
-/

namespace SchemaEditor.Toml

namespace Quoted

variable {c : Char} {cs rest X : List Char} {run : Nat}

/-- Nothing at the beginning of a text can go on the quotes before it. -/
def Ends (rest : List Char) : Prop := rest.head? ≠ some '"' ∧ rest.head? ≠ some '\''

/-! ### Characters -/

theorem not_isInline_iff : isInline c = false ↔ c ≠ '\t' ∧ (c.toNat < 0x20 ∨ c.toNat = 0x7F) := by
  simp only [isInline, Bool.or_eq_false_iff, beq_eq_false_iff_ne, Bool.and_eq_false_iff,
    decide_eq_false_iff_not, bne_eq_false_iff_eq, Nat.not_le]

theorem scalar?_codeEscape (h : c.toNat < 256) :
    scalar? ['0', '0', Text.Hexadecimal.upperDigit (c.toNat / 16),
      Text.Hexadecimal.upperDigit (c.toNat % 16)] = some c := by
  have hall : ∀ k : Fin 256, Text.Hexadecimal.value? 16 ['0', '0',
      Text.Hexadecimal.upperDigit (k.val / 16), Text.Hexadecimal.upperDigit (k.val % 16)] =
        some k.val := by
    decide +kernel
  rw [scalar?, hall ⟨c.toNat, h⟩]
  exact (dif_pos (show c.toNat.isValidChar from c.valid)).trans rfl

/-- What stands for a character begins with no quote and no line end. -/
theorem exists_cons_escape (hquote : c ≠ '"') (hline : c ≠ '\n') :
    ∃ x X, escape c = x :: X ∧ x ≠ '"' ∧ x ≠ '\n' ∧ x ≠ '\r' := by
  unfold escape
  split_ifs with hb ht hf hr
  · exact ⟨_, _, rfl, by decide⟩
  · exact ⟨_, _, rfl, by decide⟩
  · exact ⟨_, _, rfl, by decide⟩
  · exact ⟨_, _, rfl, by decide⟩
  · exact ⟨_, _, rfl, by decide⟩
  · exact ⟨_, _, rfl, hquote, hline, hr⟩
  · exact ⟨_, _, rfl, by decide⟩

/-! ### Double quotes on one line -/

theorem basic?_escape (hquote : c ≠ '"') (hline : c ≠ '\n') (X : List Char) :
    basic? (escape c ++ X) = consRead c (basic? X) := by
  unfold escape
  split_ifs with hb ht hf hr hback hinline
  · subst hb; rfl
  · subst ht; rfl
  · subst hf; rfl
  · subst hr; rfl
  · subst hback; rfl
  · rw [List.singleton_append, basic?, if_pos hinline]
    all_goals simp_all
  · have hcode := (not_isInline_iff.mp (Bool.eq_false_iff.mpr hinline)).2
    have hscalar := scalar?_codeEscape (c := c) (by omega)
    simp only [codeEscape, List.cons_append, List.nil_append, basic?, hscalar]

theorem basic?_escapeLine (cs rest : List Char) :
    basic? (escapeLine cs ++ '"' :: rest) = some (cs, rest) := by
  induction cs with
  | nil => rfl
  | cons c cs ih =>
    have hstep : basic? (escapeLine (c :: cs) ++ '"' :: rest) =
        consRead c (basic? (escapeLine cs ++ '"' :: rest)) := by
      rw [escapeLine, List.append_assoc]
      split_ifs with hquote hline
      · subst hquote; rfl
      · subst hline; rfl
      · exact basic?_escape hquote hline _
    rw [hstep, ih]
    rfl

/-! ### Double quotes over several lines -/

theorem basicBlock?_escape (hquote : c ≠ '"') (hline : c ≠ '\n') (X : List Char) :
    basicBlock? false (escape c ++ X) = consRead c (basicBlock? false X) := by
  unfold escape
  split_ifs with hb ht hf hr hback hinline
  · subst hb; rfl
  · subst ht; rfl
  · subst hf; rfl
  · subst hr; rfl
  · subst hback; rfl
  · rw [List.singleton_append, basicBlock?]
    all_goals simp_all
  · have hcode := (not_isInline_iff.mp (Bool.eq_false_iff.mpr hinline)).2
    have hscalar := scalar?_codeEscape (c := c) (by omega)
    simp only [codeEscape, List.cons_append, List.nil_append, basicBlock?, hscalar]

/-- One or two quotes with no third one behind them belong to the text. -/
theorem basicBlock?_run (hrun : run ≤ 2) (hX : X.head? ≠ some '"') :
    basicBlock? false (List.replicate run '"' ++ X) =
      (basicBlock? false X).map fun (cs, rest) => (List.replicate run '"' ++ cs, rest) := by
  have hone (Y : List Char) (hY : ∀ Z, Y ≠ '"' :: '"' :: Z) :
      basicBlock? false ('"' :: Y) = consRead '"' (basicBlock? false Y) := by
    rw [basicBlock?]
    all_goals simp_all [isInline, isSpace]
  have hnone (Z : List Char) : X ≠ '"' :: Z := by
    rintro rfl
    exact hX rfl
  match run with
  | 0 => simp
  | 1 => exact hone X fun Z => hnone _
  | 2 =>
    show basicBlock? false ('"' :: '"' :: X) = _
    rw [hone _ fun Z h => hnone Z (List.cons.inj h).2, hone X fun Z => hnone _]
    cases basicBlock? false X <;> rfl

/-- The text is read together with the quotes before it. -/
theorem basicBlock?_escapeBlock (hrun : run ≤ 2) (cs : List Char) (hrest : rest.head? ≠ some '"') :
    basicBlock? false
      (List.replicate run '"' ++ (escapeBlock run cs ++ '"' :: '"' :: '"' :: rest)) =
      some (List.replicate run '"' ++ cs, rest) := by
  induction cs generalizing run with
  | nil =>
    have hnone (Z : List Char) : rest ≠ '"' :: Z := by
      rintro rfl
      exact hrest rfl
    match run with
    | 0 =>
      show basicBlock? false ('"' :: '"' :: '"' :: rest) = _
      rw [basicBlock?]
      all_goals simp_all
    | 1 =>
      show basicBlock? false ('"' :: '"' :: '"' :: '"' :: rest) = _
      rw [basicBlock?]
      all_goals simp_all
    | 2 => rfl
  | cons c cs ih =>
    have hfresh : basicBlock? false (escapeBlock 0 cs ++ '"' :: '"' :: '"' :: rest) =
        some (cs, rest) := ih (Nat.zero_le 2)
    rw [escapeBlock]
    split_ifs with hquote hmore hline
    · -- One more quote before the rest of the text.
      subst hquote
      have hnext := ih (show run + 1 ≤ 2 from hmore)
      rw [List.replicate_succ', List.append_assoc, List.append_assoc] at hnext
      exact hnext
    · subst hquote
      rw [basicBlock?_run hrun (by simp)]
      show ((consRead '"' (basicBlock? false (escapeBlock 0 cs ++ _))).map _) = _
      rw [hfresh]
      rfl
    · subst hline
      rw [basicBlock?_run hrun (by simp)]
      show ((consRead '\n' (basicBlock? false (escapeBlock 0 cs ++ _))).map _) = _
      rw [hfresh]
      rfl
    · obtain ⟨x, X, hescape, hx, -⟩ := exists_cons_escape hquote hline
      rw [basicBlock?_run hrun (by simpa [hescape] using hx), List.append_assoc,
        basicBlock?_escape hquote hline, hfresh]
      rfl

/-! ### Single quotes -/

theorem literal?_append (hcs : ∀ c ∈ cs, isInline c = true ∧ c ≠ '\'') :
    literal? (cs ++ '\'' :: rest) = some (cs, rest) := by
  induction cs with
  | nil => rfl
  | cons c cs ih =>
    obtain ⟨hc, hcs⟩ := List.forall_mem_cons.mp hcs
    rw [List.cons_append, literal?, if_pos hc.1, ih hcs]
    · rfl
    · rintro rfl
      exact hc.2 rfl

/-- One or two quotes with no third one behind them belong to the text. -/
theorem literalBlock?_run (hrun : run ≤ 2) (hX : X.head? ≠ some '\'') :
    literalBlock? (List.replicate run '\'' ++ X) =
      (literalBlock? X).map fun (cs, rest) => (List.replicate run '\'' ++ cs, rest) := by
  have hone (Y : List Char) (hY : ∀ Z, Y ≠ '\'' :: '\'' :: Z) :
      literalBlock? ('\'' :: Y) = consRead '\'' (literalBlock? Y) := by
    rw [literalBlock?]
    all_goals simp_all [isInline]
  have hnone (Z : List Char) : X ≠ '\'' :: Z := by
    rintro rfl
    exact hX rfl
  match run with
  | 0 => simp
  | 1 => exact hone X fun Z => hnone _
  | 2 =>
    show literalBlock? ('\'' :: '\'' :: X) = _
    rw [hone _ fun Z h => hnone Z (List.cons.inj h).2, hone X fun Z => hnone _]
    cases literalBlock? X <;> rfl

theorem le_longestRun (q : Char) (run : Nat) (cs : List Char) : run ≤ longestRun q run cs := by
  induction cs generalizing run with
  | nil => exact Nat.le_refl run
  | cons c cs ih =>
    rw [longestRun]
    split
    · exact Nat.le_trans (Nat.le_succ run) (ih (run + 1))
    · exact Nat.le_max_left _ _

/-- The text is read together with the quotes before it. -/
theorem literalBlock?_append (hcs : ∀ c ∈ cs, c = '\n' ∨ isInline c = true)
    (hrun : longestRun '\'' run cs ≤ 2) (hrest : rest.head? ≠ some '\'') :
    literalBlock? (List.replicate run '\'' ++ (cs ++ '\'' :: '\'' :: '\'' :: rest)) =
      some (List.replicate run '\'' ++ cs, rest) := by
  have hle := Nat.le_trans (le_longestRun '\'' run cs) hrun
  induction cs generalizing run with
  | nil =>
    have hnone (Z : List Char) : rest ≠ '\'' :: Z := by
      rintro rfl
      exact hrest rfl
    match run with
    | 0 =>
      show literalBlock? ('\'' :: '\'' :: '\'' :: rest) = _
      rw [literalBlock?]
      all_goals simp_all
    | 1 =>
      show literalBlock? ('\'' :: '\'' :: '\'' :: '\'' :: rest) = _
      rw [literalBlock?]
      all_goals simp_all
    | 2 => rfl
  | cons c cs ih =>
    rw [List.forall_mem_cons] at hcs
    obtain ⟨hc, hcs⟩ := hcs
    rw [longestRun] at hrun
    split at hrun
    · next hquote =>
      subst hquote
      have hnext := ih hcs hrun (Nat.le_trans (le_longestRun '\'' _ cs) hrun)
      rw [List.replicate_succ', List.append_assoc, List.append_assoc] at hnext
      exact hnext
    · next hquote =>
      have hfresh : literalBlock? (cs ++ '\'' :: '\'' :: '\'' :: rest) = some (cs, rest) :=
        ih hcs (show longestRun '\'' 0 cs ≤ 2 by omega) (Nat.zero_le 2)
      have hstep : literalBlock? (c :: (cs ++ '\'' :: '\'' :: '\'' :: rest)) =
          consRead c (literalBlock? (cs ++ '\'' :: '\'' :: '\'' :: rest)) := by
        obtain rfl | hinline := hc
        · rfl
        · rw [literalBlock?, if_pos hinline]
          · simp_all
          · simp_all
          · simp_all
          · rintro rfl
            exact absurd hinline (by decide)
          · rintro X rfl
            exact absurd hinline (by decide)
      rw [List.cons_append, literalBlock?_run hle (by simpa using hquote), hstep, hfresh]
      rfl

/-! ### Forms -/

theorem not_any_needsEscape_iff :
    cs.any needsEscape = false ↔ ∀ c ∈ cs, c = '\n' ∨ isInline c = true := by
  simp only [List.any_eq_false, needsEscape, Bool.and_eq_true, bne_iff_ne, ne_eq,
    Bool.not_eq_true', not_and, Bool.not_eq_false, Decidable.or_iff_not_imp_left]

theorem of_form_literal (h : form cs = .literal) :
    cs ≠ [] ∧ ∀ c ∈ cs, isInline c = true ∧ c ≠ '\'' := by
  constructor
  · rintro rfl
    cases h
  · have hcond : cs.any needsEscape = false ∧ '\n' ∉ cs ∧ '\'' ∉ cs := by
      simp only [form] at h
      split_ifs at h with _ hliteral
      simpa [and_assoc] using hliteral
    obtain ⟨hescapes, hlines, hquotes⟩ := hcond
    intro c hc
    refine ⟨(not_any_needsEscape_iff.mp hescapes c hc).resolve_left ?_, ?_⟩
    · rintro rfl
      exact hlines hc
    · rintro rfl
      exact hquotes hc

theorem of_form_literalBlock (h : form cs = .literalBlock) :
    (∀ c ∈ cs, c = '\n' ∨ isInline c = true) ∧ longestRun '\'' 0 cs ≤ 2 := by
  have hcond : cs.any needsEscape = false ∧ longestRun '\'' 0 cs ≤ 2 := by
    simp only [form] at h
    split_ifs at h with _ _ _ hblock
    simpa using hblock
  exact ⟨not_any_needsEscape_iff.mp hcond.1, hcond.2⟩

/-- The line end that is written after opening quotes is dropped, and nothing else is. -/
theorem afterOpening_opening
    (hX : '\n' ∉ cs → ∀ x ∈ X.head?, x ≠ '\n' ∧ x ≠ '\r') :
    afterOpening (opening cs ++ X) = X := by
  unfold opening
  split_ifs with hlines
  · rfl
  · have hhead := hX (by simpa using hlines)
    have hnone : newline? X = none := by
      unfold newline?
      split
      · exact absurd rfl (hhead '\n' rfl).1
      · exact absurd rfl (hhead '\r' rfl).2
      · rfl
    rw [List.nil_append, afterOpening, hnone]
    rfl

theorem head?_escapeBlock (hlines : '\n' ∉ cs) :
    ∀ x ∈ (escapeBlock 0 cs ++ '"' :: X).head?, x ≠ '\n' ∧ x ≠ '\r' := by
  cases cs with
  | nil =>
    rintro x ⟨⟩
    decide
  | cons c cs =>
    rw [escapeBlock]
    split_ifs with hquote hrun hline
    · rintro x ⟨⟩
      decide
    · exact absurd (by decide) hrun
    · exact absurd hline.symm (List.ne_of_not_mem_cons hlines)
    · obtain ⟨x, X', hescape, -, hx⟩ := exists_cons_escape hquote hline
      rw [hescape]
      rintro y ⟨⟩
      exact hx

/-- A text that was written reads back, in front of anything that does not go on its quotes. -/
theorem read?_write (cs : List Char) (hrest : Ends rest) :
    read? (write cs ++ rest) = some (cs, rest) := by
  unfold write
  cases hform : form cs with
  | basic =>
    have hshort (X : List Char) : escapeLine cs ++ '"' :: rest ≠ '"' :: '"' :: X := by
      cases cs with
      | nil =>
        intro h
        exact hrest.1 (congrArg List.head? (List.cons.inj h).2)
      | cons c cs =>
        rw [escapeLine]
        split_ifs with hquote hline
        · exact fun h => absurd (List.cons.inj h).1 (by decide)
        · exact fun h => absurd (List.cons.inj h).1 (by decide)
        · obtain ⟨x, X', hescape, hx, -⟩ := exists_cons_escape hquote hline
          rw [hescape]
          exact fun h => hx (List.cons.inj h).1
    have hline : read? ('"' :: (escapeLine cs ++ '"' :: rest)) =
        basic? (escapeLine cs ++ '"' :: rest) := by
      rw [read?, line?]
      · exact fun X h => hshort X (List.cons.inj h).2
      · exact fun X h => absurd (List.cons.inj h).1 (by decide)
    simpa using hline.trans (basic?_escapeLine cs rest)
  | literal =>
    obtain ⟨hne, hcs⟩ := of_form_literal hform
    have hline : read? ('\'' :: (cs ++ '\'' :: rest)) = literal? (cs ++ '\'' :: rest) := by
      obtain ⟨c, t, rfl⟩ := List.exists_cons_of_ne_nil hne
      rw [read?, line?]
      · exact fun X h => absurd (List.cons.inj h).1 (by decide)
      · exact fun X h => (hcs c List.mem_cons_self).2 (List.cons.inj (List.cons.inj h).2).1
    simpa using hline.trans (literal?_append hcs)
  | basicBlock =>
    have hblock : basicBlock? false (escapeBlock 0 cs ++ '"' :: '"' :: '"' :: rest) =
        some (cs, rest) := basicBlock?_escapeBlock (Nat.zero_le 2) cs hrest.1
    have hopen : afterOpening (opening cs ++ (escapeBlock 0 cs ++ '"' :: '"' :: '"' :: rest)) =
        escapeBlock 0 cs ++ '"' :: '"' :: '"' :: rest := afterOpening_opening head?_escapeBlock
    simp only [List.cons_append, List.nil_append, List.append_assoc, read?, hopen, hblock]
  | literalBlock =>
    obtain ⟨hcs, hrun⟩ := of_form_literalBlock hform
    have hblock : literalBlock? (cs ++ '\'' :: '\'' :: '\'' :: rest) = some (cs, rest) :=
      literalBlock?_append hcs hrun hrest.2
    have hopen : afterOpening (opening cs ++ (cs ++ '\'' :: '\'' :: '\'' :: rest)) =
        cs ++ '\'' :: '\'' :: '\'' :: rest := by
      refine afterOpening_opening fun hlines x hx => ?_
      cases cs with
      | nil =>
        obtain rfl := Option.some.inj hx
        decide
      | cons c cs =>
        obtain rfl := Option.some.inj hx
        have hc := (List.forall_mem_cons.mp hcs).1
        refine ⟨(List.ne_of_not_mem_cons hlines).symm, ?_⟩
        rintro rfl
        revert hc
        decide
    simp only [List.cons_append, List.nil_append, List.append_assoc, read?, hopen, hblock]

/-- A text that is written begins with a quote. -/
theorem exists_cons_write (cs : List Char) :
    ∃ q X, write cs = q :: X ∧ (q = '"' ∨ q = '\'') := by
  unfold write
  cases form cs with
  | basic => exact ⟨_, _, rfl, .inl rfl⟩
  | literal => exact ⟨_, _, rfl, .inr rfl⟩
  | basicBlock => exact ⟨_, _, rfl, .inl rfl⟩
  | literalBlock => exact ⟨_, _, rfl, .inr rfl⟩

end Quoted

end SchemaEditor.Toml
