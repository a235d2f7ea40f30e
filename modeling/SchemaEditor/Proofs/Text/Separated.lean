import Mathlib.InformationTheory.Coding.UniquelyDecodable

/-!
# Texts in front of their separators

A record that is written as texts with separators between them reads back if every text ends where
its separator first occurs (`Field.Ended`). Records of one layout that do so are words of a uniquely
decodable code: however many of them are written one after the other, each of them can be told.
-/

namespace SchemaEditor.Text

open InformationTheory (UniquelyDecodable)

variable {α : Type} {S : Set (List α)} {c : Char} {w a b r r' : List Char}

/-- A code is uniquely decodable if none of its words is empty and none of them begins another. -/
theorem uniquelyDecodable_of_begins (hnil : [] ∉ S)
    (hbegins : ∀ a ∈ S, ∀ b ∈ S, ∀ r r', a ++ r = b ++ r' → a = b) : UniquelyDecodable S := by
  intro ws
  induction ws with
  | nil =>
    rintro (_ | ⟨v, vs⟩) - hvs h
    · rfl
    · obtain ⟨hv, -⟩ := List.append_eq_nil_iff.mp h.symm
      exact absurd (hv ▸ hvs v List.mem_cons_self) hnil
  | cons w ws ih =>
    rintro (_ | ⟨v, vs⟩) hws hvs h
    · obtain ⟨hw, -⟩ := List.append_eq_nil_iff.mp h
      exact absurd (hw ▸ hws w List.mem_cons_self) hnil
    · obtain rfl :=
        hbegins w (hws w List.mem_cons_self) v (hvs v List.mem_cons_self) _ _ h
      rw [ih vs (fun x hx => hws x (List.mem_cons_of_mem _ hx))
        (fun x hx => hvs x (List.mem_cons_of_mem _ hx)) (List.append_cancel_left h)]

/-- A separator that begins nowhere inside itself cannot begin inside a text that is free of it
and reach into the separator behind the text. -/
theorem eq_nil_of_separator_inside {d : List Char} (hw : c ∉ w) (hb : ¬ (c :: w) <:+: a ++ d)
    (h : c :: w ++ r = d ++ (c :: w ++ r')) : d = [] := by
  cases d with
  | nil => rfl
  | cons x d =>
    simp only [List.cons_append, List.cons.injEq] at h
    obtain ⟨rfl, h⟩ := h
    obtain ⟨t, rfl, -⟩ | ⟨t, rfl, ht⟩ := List.append_eq_append_iff.mp h
    · exact absurd ⟨a, t, by simp⟩ hb
    · -- The second separator would begin before the first one is complete.
      cases t with
      | nil => exact absurd ⟨a, [], by simp⟩ hb
      | cons y t =>
        obtain ⟨rfl, -⟩ := List.cons.inj ht
        exact absurd (by simp) hw

/-- Two texts that are free of a separator and stand before it are the same, whatever follows. -/
theorem append_separator_cancel (hw : c ∉ w) (ha : ¬ (c :: w) <:+: a) (hb : ¬ (c :: w) <:+: b)
    (h : a ++ (c :: w ++ r) = b ++ (c :: w ++ r')) : a = b ∧ r = r' := by
  obtain ⟨d, rfl, hd⟩ | ⟨d, rfl, hd⟩ := List.append_eq_append_iff.mp h
  · obtain rfl := eq_nil_of_separator_inside hw hb hd
    exact ⟨(List.append_nil a).symm, List.append_cancel_left hd⟩
  · obtain rfl := eq_nil_of_separator_inside hw ha hd
    exact ⟨List.append_nil b, (List.append_cancel_left hd).symm⟩

/-! ### Fields -/

/-- A text and the separator that is written behind it. -/
@[ext] structure Field where
  text : String
  separator : String

namespace Field

variable {f : Field} {fs gs : List Field} {seps : List String} {t s : String}

/-- A field as it is written. -/
def chars (f : Field) : List Char := f.text.toList ++ f.separator.toList

@[simp] theorem chars_mk (t s : String) : (⟨t, s⟩ : Field).chars = t.toList ++ s.toList := rfl

/-- The text of the field ends where its separator first occurs. -/
def Ended (f : Field) : Prop :=
  ∃ c w, f.separator.toList = c :: w ∧ c ∉ w ∧ ¬ (c :: w) <:+: f.text.toList

theorem ended_of_not_mem (hsep : s.toList = c :: w) (hw : c ∉ w) (h : c ∉ t.toList) :
    (⟨t, s⟩ : Field).Ended :=
  ⟨c, w, hsep, hw, fun hinside => h (hinside.subset List.mem_cons_self)⟩

theorem Ended.chars_ne_nil (hf : f.Ended) : f.chars ≠ [] := by
  obtain ⟨c, w, hsep, -⟩ := hf
  simp [chars, hsep]

/-- Fields with the same separators read back, whatever follows them. -/
theorem eq_of_written (hf : ∀ f ∈ fs, f.Ended) (hg : ∀ g ∈ gs, g.Ended)
    (hsep : fs.map separator = gs.map separator)
    (h : fs.flatMap chars ++ r = gs.flatMap chars ++ r') : fs = gs := by
  induction fs generalizing gs with
  | nil => exact (List.map_eq_nil_iff.mp hsep.symm).symm
  | cons f fs ih =>
    cases gs with
    | nil => cases hsep
    | cons g gs =>
      obtain ⟨hfg, hsep⟩ := List.cons.inj hsep
      obtain ⟨c, w, hfsep, hw, hfree⟩ := hf f List.mem_cons_self
      obtain ⟨c', w', hgsep, -, hgfree⟩ := hg g List.mem_cons_self
      obtain ⟨rfl, rfl⟩ := List.cons.inj (hgsep.symm.trans (hfg ▸ hfsep))
      simp only [List.flatMap_cons, chars, hfsep, hgsep, List.append_assoc] at h
      obtain ⟨htext, hrest⟩ := append_separator_cancel hw hfree hgfree h
      rw [Field.ext (String.toList_inj.mp htext) hfg, ih (fun x hx => hf x (List.mem_cons_of_mem _ hx))
        (fun x hx => hg x (List.mem_cons_of_mem _ hx)) hsep hrest]

/-- The records of one layout whose texts all end at their separators. -/
def records (seps : List String) : Set (List Char) :=
  {word | ∃ fs : List Field, fs.map separator = seps ∧ (∀ f ∈ fs, f.Ended) ∧
    fs.flatMap chars = word}

/-- Records of one layout can be told apart when they are written one after the other. -/
theorem uniquelyDecodable_records (hseps : seps ≠ []) : UniquelyDecodable (records seps) := by
  refine uniquelyDecodable_of_begins ?_ ?_
  · rintro ⟨fs, rfl, hended, hnil⟩
    obtain ⟨f, fs, rfl⟩ := List.exists_cons_of_ne_nil (mt List.map_eq_nil_iff.mpr hseps)
    exact (hended f List.mem_cons_self).chars_ne_nil (List.append_eq_nil_iff.mp hnil).1
  · rintro _ ⟨fs, rfl, hf, rfl⟩ _ ⟨gs, hsep, hg, rfl⟩ r r' h
    rw [eq_of_written hf hg hsep.symm h]

end Field

end SchemaEditor.Text
