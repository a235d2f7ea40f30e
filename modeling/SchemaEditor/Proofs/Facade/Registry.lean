import SchemaEditor.Facade.Registry

/-!
# Registries that agree with the kinds of nodes

A registry is consistent if its map leads from each node to the facade that was handed out for it,
if there is one, and the ids of the facades are their positions; then no node has two facades. It is
sound for the kinds of the nodes if, besides, each facade is of the kind of its node. Handing out a
facade keeps this, and what was handed out stays: the later registry `Continues` the earlier one.
-/

namespace SchemaEditor.Facade.Registry

variable {r r' r'' : Registry} {kind? : NodeId → Option Kind} {node : NodeId} {kind : Kind}
variable {id i j : FacadeId} {e e' : Entry} {k : Nat}

theorem entry?_empty (id : FacadeId) : empty.entry? id = none := by
  simp [empty, entry?]

theorem get?_empty (node : NodeId) : empty.get? node = none := by
  simp [empty, get?]

theorem entry?_insert (r : Registry) (node : NodeId) (kind : Kind) (id : FacadeId) :
    entry? (r.insert node kind).2 id =
      if id = ⟨r.size⟩ then some ⟨node, kind⟩ else r.entry? id := by
  obtain ⟨i⟩ := id
  simp only [insert, entry?, size, Array.getElem?_push, FacadeId.mk.injEq]
  split <;> rfl

theorem get?_insert (r : Registry) (node : NodeId) (kind : Kind) (x : NodeId) :
    get? (r.insert node kind).2 x = if x = node then some ⟨r.size⟩ else r.get? x := by
  simp only [insert, get?, size, Std.TreeMap.getElem?_insert, Std.LawfulEqCmp.compare_eq_iff_eq,
    eq_comm (a := node)]

theorem toList_insert (r : Registry) (node : NodeId) (kind : Kind) :
    toList (r.insert node kind).2 = r.toList ++ [(⟨r.size⟩, ⟨node, kind⟩)] := by
  simp [insert, toList, size]

/-- What was handed out comes before what is new. -/
theorem size_ne_of_entry (he : r.entry? id = some e) : id ≠ ⟨r.size⟩ := by
  rintro rfl
  obtain ⟨record, hrecord, -⟩ := Option.map_eq_some_iff.mp he
  exact Nat.lt_irrefl _ (Array.getElem?_eq_some_iff.mp hrecord).1

/-! ### Consistency -/

/-- Each node finds the facade that was handed out for it, and ids are positions. -/
structure Consistent (r : Registry) : Prop where
  get?_eq_some_iff : ∀ {node id}, r.get? node = some id ↔ ∃ e, r.entry? id = some e ∧ e.node = node
  numbered : ∀ {i : Nat} {id : FacadeId} {e}, r.toList[i]? = some (id, e) → id = ⟨i⟩

namespace Consistent

theorem empty : Consistent .empty where
  get?_eq_some_iff := by simp [get?_empty, entry?_empty]
  numbered h := by simp [toList, Registry.empty] at h

theorem get?_of_entry (h : r.Consistent) (he : r.entry? id = some e) : r.get? e.node = some id :=
  h.get?_eq_some_iff.mpr ⟨e, he, rfl⟩

/-- No node has two facades. -/
theorem distinct (h : r.Consistent) (he : r.entry? i = some e) (he' : r.entry? j = some e')
    (hn : e.node = e'.node) : i = j :=
  Option.some.inj ((h.get?_of_entry he).symm.trans (hn ▸ h.get?_of_entry he'))

theorem insert (h : r.Consistent) (hfree : r.get? node = none) (kind : Kind) :
    (r.insert node kind).2.Consistent where
  get?_eq_some_iff {x id} := by
    rw [get?_insert, entry?_insert]
    by_cases hid : id = ⟨r.size⟩
    · subst hid
      -- No other node led to the new facade.
      have hnew : r.get? x ≠ some ⟨r.size⟩ := fun hx => by
        obtain ⟨e, he, -⟩ := h.get?_eq_some_iff.mp hx
        exact size_ne_of_entry he rfl
      by_cases hx : x = node <;> simp [hx, hnew, eq_comm]
    · -- The node that was free led to none of the old ones.
      by_cases hx : x = node
      · subst hx
        simp only [if_true, if_neg hid, ← h.get?_eq_some_iff, hfree, Option.some.injEq]
        exact iff_of_false (fun hn => hid hn.symm) nofun
      · rw [if_neg hx, if_neg hid, h.get?_eq_some_iff]
  numbered {i id e} hi := by
    rw [toList_insert, List.getElem?_append] at hi
    split at hi
    · exact h.numbered hi
    · next hle =>
      have hsize : r.toList.length = r.size := by simp [toList, size]
      obtain ⟨hi, hpair⟩ := List.getElem?_eq_some_iff.mp hi
      simp only [List.length_singleton] at hi
      obtain rfl : i = r.size := by omega
      simpa using (congrArg Prod.fst hpair).symm

/-- The list of facades holds what each of them stands for. -/
theorem toList_getElem? (h : r.Consistent) (i : Nat) :
    r.toList[i]? = (fun e => (⟨i⟩, e)) <$> r.entry? ⟨i⟩ := by
  have hmap : r.toList[i]? = r.records[i]?.map fun record => (record.id, record.entry) := by
    simp [toList]
  rw [hmap, entry?]
  cases hrecord : r.records[i]? with
  | none => rfl
  | some record =>
    rw [hrecord] at hmap
    simp [h.numbered hmap]

theorem entry?_of_mem_toList (h : r.Consistent) (hmem : (id, e) ∈ r.toList) :
    r.entry? id = some e := by
  obtain ⟨i, hi⟩ := List.mem_iff_getElem?.mp hmem
  rw [h.toList_getElem?] at hi
  obtain ⟨e', he', hpair⟩ := Option.map_eq_some_iff.mp hi
  obtain ⟨rfl, rfl⟩ := Prod.mk.inj hpair
  exact he'

/-- What is taken from the list of facades has smaller ids. -/
theorem entry?_of_mem_take (h : r.Consistent) (hmem : (id, e) ∈ r.toList.take k) :
    r.entry? id = some e ∧ id.index < k := by
  refine ⟨h.entry?_of_mem_toList (List.mem_of_mem_take hmem), ?_⟩
  obtain ⟨i, hi⟩ := List.mem_iff_getElem?.mp hmem
  rw [List.getElem?_take] at hi
  split at hi
  · next hlt => exact h.numbered hi ▸ hlt
  · cases hi

end Consistent

/-! ### Later registries -/

/-- A later registry: facades are added at the end, and a node that has a facade keeps it. -/
structure Continues (r r' : Registry) : Prop where
  toList : r.toList <+: r'.toList
  entry : ∀ {id e}, r.entry? id = some e → r'.entry? id = some e
  get : ∀ {node id}, r.get? node = some id → r'.get? node = some id

namespace Continues

theorem refl (r : Registry) : r.Continues r := ⟨List.prefix_refl _, id, id⟩

theorem trans (h : r.Continues r') (h' : r'.Continues r'') : r.Continues r'' :=
  ⟨h.toList.trans h'.toList, fun he => h'.entry (h.entry he), fun hx => h'.get (h.get hx)⟩

theorem insert (hfree : r.get? node = none) (kind : Kind) :
    r.Continues (r.insert node kind).2 where
  toList := toList_insert r node kind ▸ List.prefix_append _ _
  entry he := by rw [entry?_insert, if_neg (size_ne_of_entry he), he]
  get {x id} hx := by
    have hne : x ≠ node := by
      rintro rfl
      cases hfree.symm.trans hx
    rw [get?_insert, if_neg hne, hx]

end Continues

/-! ### Kinds -/

/-- The map agrees with the facades, and each facade is of the kind of its node. -/
structure Sound (r : Registry) (kind? : NodeId → Option Kind) : Prop extends Consistent r where
  known : ∀ {id e}, r.entry? id = some e → kind? e.node = some e.kind

namespace Sound

theorem empty (kind? : NodeId → Option Kind) : Sound .empty kind? where
  toConsistent := .empty
  known h := by cases (entry?_empty _).symm.trans h

/-- Kinds that stay as they are keep a registry sound. -/
theorem of_kinds {kind?' : NodeId → Option Kind} (h : r.Sound kind?)
    (hk : ∀ {node kind}, kind? node = some kind → kind?' node = some kind) : r.Sound kind?' :=
  ⟨h.toConsistent, fun he => hk (h.known he)⟩

theorem insert (h : r.Sound kind?) (hfree : r.get? node = none) (hk : kind? node = some kind) :
    (r.insert node kind).2.Sound kind? where
  toConsistent := h.toConsistent.insert hfree kind
  known {id e} he := by
    rw [entry?_insert] at he
    split at he
    · exact Option.some.inj he ▸ hk
    · exact h.known he

/-- A node of a kind with facades gets one: its own, or else a new one. -/
theorem getOrCreate_cases (h : r.Sound kind?) (hk : kind? node = some kind) :
    (∃ id, r.getOrCreate node (some kind) = some (id, r) ∧ r.entry? id = some ⟨node, kind⟩) ∨
      (r.get? node = none ∧
        r.getOrCreate node (some kind) = some (⟨r.size⟩, (r.insert node kind).2)) := by
  cases hg : r.get? node with
  | none => exact .inr ⟨rfl, by simp only [getOrCreate, hg]; rfl⟩
  | some id =>
    obtain ⟨⟨node', kind'⟩, he, rfl⟩ := h.get?_eq_some_iff.mp hg
    obtain rfl : kind = kind' := Option.some.inj (hk.symm.trans (h.known he))
    exact .inl ⟨id, by simp only [getOrCreate, hg], he⟩

/-- A node of a kind without facades has none. -/
theorem get?_eq_none (h : r.Sound kind?) (hk : kind? node = none) : r.get? node = none := by
  cases hg : r.get? node with
  | none => rfl
  | some id =>
    obtain ⟨e, he, rfl⟩ := h.get?_eq_some_iff.mp hg
    cases hk.symm.trans (h.known he)

/-- A node of a kind without facades gets none. -/
theorem getOrCreate_eq_none (h : r.Sound kind?) (hk : kind? node = none) :
    r.getOrCreate node none = none := by
  simp only [getOrCreate, h.get?_eq_none hk, Option.map_none]

end Sound

end SchemaEditor.Facade.Registry
