/-!
# Fields of a text

Cutting a text at every occurrence of a character. There is always one field more than there are
separators, so the empty text has one empty field.
-/

namespace SchemaEditor.Text

/-- The fields of a text between the separators, in order. -/
def fields (sep : Char) : List Char → List (List Char)
  | [] => [[]]
  | c :: cs =>
    if c = sep then [] :: fields sep cs
    else
      match fields sep cs with
      | [] => [[c]]
      | f :: fs => (c :: f) :: fs

theorem fields_ne_nil (sep : Char) (cs : List Char) : fields sep cs ≠ [] := by
  cases cs with
  | nil => simp [fields]
  | cons c cs =>
    simp only [fields]
    split
    · simp
    · split <;> simp

/-- A text without the separator is one field. -/
theorem fields_of_not_mem {sep : Char} {cs : List Char} (h : sep ∉ cs) :
    fields sep cs = [cs] := by
  induction cs with
  | nil => rfl
  | cons c cs ih =>
    simp only [List.mem_cons, not_or] at h
    simp [fields, Ne.symm h.1, ih h.2]

/-- The first separator ends the first field. -/
theorem fields_append_cons {sep : Char} {cs : List Char} (h : sep ∉ cs) (rest : List Char) :
    fields sep (cs ++ sep :: rest) = cs :: fields sep rest := by
  induction cs with
  | nil => simp [fields]
  | cons c cs ih =>
    simp only [List.mem_cons, not_or] at h
    simp [fields, Ne.symm h.1, ih h.2]

/-- The first field ends at the first separator, or there is none. -/
theorem of_fields_eq_cons {sep : Char} {cs f : List Char} {fs : List (List Char)}
    (h : fields sep cs = f :: fs) :
    sep ∉ f ∧ (fs = [] ∧ cs = f ∨ ∃ rest, cs = f ++ sep :: rest ∧ fields sep rest = fs) := by
  induction cs generalizing f with
  | nil =>
    obtain ⟨rfl, rfl⟩ := List.cons.inj h
    exact ⟨List.not_mem_nil, .inl ⟨rfl, rfl⟩⟩
  | cons c cs ih =>
    rw [fields] at h
    split at h
    · next hc =>
      obtain ⟨rfl, rfl⟩ := List.cons.inj h
      exact ⟨List.not_mem_nil, .inr ⟨cs, by rw [hc, List.nil_append], rfl⟩⟩
    · next hc =>
      obtain ⟨g, gs, hg⟩ := List.exists_cons_of_ne_nil (fields_ne_nil sep cs)
      rw [hg] at h
      obtain ⟨rfl, rfl⟩ := List.cons.inj h
      obtain ⟨hmem, ⟨hnil, rfl⟩ | ⟨rest, rfl, hrest⟩⟩ := ih hg
      · exact ⟨List.not_mem_cons_of_ne_of_not_mem (Ne.symm hc) hmem, .inl ⟨hnil, rfl⟩⟩
      · exact ⟨List.not_mem_cons_of_ne_of_not_mem (Ne.symm hc) hmem, .inr ⟨rest, rfl, hrest⟩⟩

end SchemaEditor.Text
