/-!
# Values under texts

Finite maps from texts, as lists in strictly increasing order of their keys. The order is by code
points, which is also the order of the texts in UTF-8. Two maps with the same entries are equal.
-/

namespace SchemaEditor.Text

/-- Puts a value under a key into a list that is ordered by its keys. -/
def insertEntry {β : Type} (key : String) (value : β) : List (String × β) → List (String × β)
  | [] => [(key, value)]
  | e :: es =>
    if key < e.1 then (key, value) :: e :: es
    else if key = e.1 then (key, value) :: es
    else e :: insertEntry key value es

/-- Whether entries are in strictly increasing order of their keys. -/
def Increasing {β : Type} (es : List (String × β)) : Prop := es.Pairwise fun a b => a.1 < b.1

theorem mem_keys_insertEntry {β : Type} {key k : String} {value : β} {es : List (String × β)}
    (h : k ∈ (insertEntry key value es).map (·.1)) : k = key ∨ k ∈ es.map (·.1) := by
  induction es with
  | nil => simpa [insertEntry] using h
  | cons e es ih =>
    simp only [insertEntry] at h
    split at h
    · simpa using h
    · split at h
      · simp only [List.map_cons, List.mem_cons] at h ⊢
        exact h.imp_right .inr
      · simp only [List.map_cons, List.mem_cons] at h ⊢
        rcases h with h | h
        · exact .inr (.inl h)
        · exact (ih h).imp_right .inr

theorem increasing_insertEntry {β : Type} (key : String) (value : β) {es : List (String × β)}
    (h : Increasing es) : Increasing (insertEntry key value es) := by
  induction es with
  | nil => simp [Increasing, insertEntry]
  | cons e es ih =>
    obtain ⟨he, hes⟩ := List.pairwise_cons.1 h
    simp only [insertEntry]
    split
    · next hlt =>
      refine List.pairwise_cons.2 ⟨fun a ha => ?_, h⟩
      rcases List.mem_cons.1 ha with rfl | ha
      · exact hlt
      · exact String.lt_trans hlt (he a ha)
    · split
      · next heq =>
        refine List.pairwise_cons.2 ⟨fun a ha => ?_, hes⟩
        exact heq ▸ he a ha
      · next hlt hne =>
        refine List.pairwise_cons.2 ⟨fun a ha => ?_, ih hes⟩
        have hgt : e.1 < key := by grind
        rcases mem_keys_insertEntry (List.mem_map.2 ⟨a, ha, rfl⟩) with hk | hk
        · exact hk ▸ hgt
        · obtain ⟨b, hb, hbk⟩ := List.mem_map.1 hk
          exact hbk ▸ he b hb

theorem Increasing.filter {β : Type} {es : List (String × β)} (h : Increasing es)
    (p : String × β → Bool) : Increasing (es.filter p) :=
  List.Pairwise.filter p h

/-- A finite map from texts. -/
structure Keyed (β : Type) where
  entries : List (String × β)
  increasing : Increasing entries

namespace Keyed

/-- The map without entries. -/
def empty {β : Type} : Keyed β := ⟨[], List.Pairwise.nil⟩

/-- Puts a value under a key, in place of the one that was there. -/
def insert {β : Type} (m : Keyed β) (key : String) (value : β) : Keyed β :=
  ⟨insertEntry key value m.entries, increasing_insertEntry key value m.increasing⟩

/-- The value under a key. -/
def get? {β : Type} (m : Keyed β) (key : String) : Option β := m.entries.lookup key

/-- Takes a key away. -/
def erase {β : Type} (m : Keyed β) (key : String) : Keyed β :=
  ⟨m.entries.filter fun e => e.1 != key, m.increasing.filter _⟩

/-- The map of some entries; of several values under one key the last one counts. -/
def ofList {β : Type} (es : List (String × β)) : Keyed β :=
  es.foldl (fun m e => m.insert e.1 e.2) empty

theorem ext {β : Type} {m n : Keyed β} (h : m.entries = n.entries) : m = n := by
  cases m; cases n; cases h; rfl

variable {α β : Type} {key k : String} {value : β} {es fs : List (String × β)}

/-! ### Lookups after changes -/

theorem lookup_cons (key : String) (value : β) (es : List (String × β)) (k : String) :
    List.lookup k ((key, value) :: es) = if k = key then some value else es.lookup k := by
  rw [List.lookup_cons]
  by_cases h : k = key
  · simp [h]
  · rw [beq_false_of_ne h, if_neg h]

theorem lookup_insertEntry (key : String) (value : β) (es : List (String × β)) (k : String) :
    (insertEntry key value es).lookup k = if k = key then some value else es.lookup k := by
  induction es with
  | nil => exact lookup_cons key value [] k
  | cons e es ih =>
    obtain ⟨j, w⟩ := e
    rw [insertEntry]
    split
    · exact lookup_cons key value _ k
    · split
      · next heq =>
        obtain rfl : key = j := heq
        rw [lookup_cons, lookup_cons]
        split <;> rfl
      · next hne =>
        rw [lookup_cons, lookup_cons, ih]
        by_cases h : k = key
        · rw [if_pos h, if_pos h, if_neg fun hj => hne (h.symm.trans hj)]
        · rw [if_neg h, if_neg h]

theorem get?_insert (m : Keyed β) (key : String) (value : β) (k : String) :
    (m.insert key value).get? k = if k = key then some value else m.get? k :=
  lookup_insertEntry key value m.entries k

theorem get?_erase (m : Keyed β) (key k : String) :
    (m.erase key).get? k = if k = key then none else m.get? k := by
  show (m.entries.filter fun e => e.1 != key).lookup k =
    if k = key then none else m.entries.lookup k
  induction m.entries with
  | nil => simp
  | cons e es ih =>
    obtain ⟨j, w⟩ := e
    by_cases hj : j = key
    · rw [List.filter_cons_of_neg (by simp [hj]), ih, lookup_cons, hj]
      split <;> rfl
    · rw [List.filter_cons_of_pos (by simp [hj]), lookup_cons, lookup_cons, ih]
      by_cases h : k = key
      · rw [if_pos h, if_pos h, if_neg fun hk => hj (hk.symm.trans h)]
      · rw [if_neg h, if_neg h]

/-- An entry that a selection passes over leaves the selection as it is if its key was free. -/
theorem filterMap_insertEntry {f : String × β → Option α} (hfree : es.lookup key = none)
    (hf : f (key, value) = none) : (insertEntry key value es).filterMap f = es.filterMap f := by
  induction es with
  | nil => rw [insertEntry, List.filterMap_cons_none hf]
  | cons e es ih =>
    obtain ⟨j, w⟩ := e
    rw [lookup_cons] at hfree
    rw [insertEntry]
    split
    · exact List.filterMap_cons_none hf
    · split
      · next heq => simp [show key = j from heq] at hfree
      · next hne =>
        rw [if_neg hne] at hfree
        rw [List.filterMap_cons, List.filterMap_cons, ih hfree]

/-! ### Entries put in one after the other -/

/-- An entry with a key after all others comes last. -/
theorem insertEntry_last (h : ∀ e ∈ es, e.1 < key) :
    insertEntry key value es = es ++ [(key, value)] := by
  induction es with
  | nil => rfl
  | cons e es ih =>
    have he := h e List.mem_cons_self
    have hlt : ¬ key < e.1 := fun hlt => String.lt_irrefl _ (String.lt_trans he hlt)
    have hne : key ≠ e.1 := fun heq => String.lt_irrefl _ (heq ▸ he)
    rw [insertEntry, if_neg hlt, if_neg hne, ih fun e he => h e (List.mem_cons_of_mem _ he)]
    rfl

theorem foldl_insert_entries (m : Keyed β) (h : Increasing (m.entries ++ fs)) :
    (fs.foldl (fun m e => m.insert e.1 e.2) m).entries = m.entries ++ fs := by
  induction fs generalizing m with
  | nil => simp
  | cons f fs ih =>
    have hlast : (m.insert f.1 f.2).entries = m.entries ++ [f] :=
      insertEntry_last fun e he => (List.pairwise_append.mp h).2.2 e he f List.mem_cons_self
    have hincreasing : Increasing ((m.insert f.1 f.2).entries ++ fs) := by
      rwa [hlast, List.append_assoc, List.singleton_append]
    rw [List.foldl_cons, ih _ hincreasing, hlast, List.append_assoc, List.singleton_append]

/-- A map is made of its entries. -/
theorem ofList_entries (m : Keyed β) : ofList m.entries = m :=
  ext (foldl_insert_entries empty m.increasing)

end Keyed

end SchemaEditor.Text
