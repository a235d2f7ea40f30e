import SchemaEditor.Proofs.Usage.Inverse

/-!
# What an index shows

`Shows` says which references an index has recorded: a function from references to the nodes they
point at, and the member of every user. It determines all answers of the index, so two indexes that
show the same are told apart by no query. `record` and `forget` change the function at one
reference.
-/

namespace SchemaEditor.Usage

/-- Two lists in strictly increasing order with the same elements are equal. -/
theorem eq_of_increasing {α : Type} {cmp : α → α → Ordering} [Std.TransCmp cmp]
    {l l' : List α} (hl : l.Pairwise fun a b => cmp a b = .lt)
    (hl' : l'.Pairwise fun a b => cmp a b = .lt) (hm : ∀ a, a ∈ l ↔ a ∈ l') : l = l' := by
  have irrefl (a b : α) (hab : cmp a b = .lt) : a ≠ b := by
    rintro rfl
    cases hab.symm.trans (@Std.ReflCmp.compare_self α cmp _ a)
  refine List.Perm.eq_of_pairwise (fun a b _ _ hab hba => ?_) hl hl'
    ((List.perm_ext_iff_of_nodup (hl.imp fun h => irrefl _ _ h)
      (hl'.imp fun h => irrefl _ _ h)).mpr hm)
  rw [@Std.OrientedCmp.eq_swap α cmp _ a b, hba] at hab
  cases hab

theorem values_eq_map {α β : Type} {cmp : α → α → Ordering} (t : Std.TreeMap α β cmp) :
    t.values = t.toList.map (·.2) := by
  have hfold : t.values = t.foldr (fun _ v vs => v :: vs) [] := rfl
  rw [hfold, Std.TreeMap.foldr_eq_foldr_toList]
  induction t.toList with
  | nil => rfl
  | cons e es ih => rw [List.foldr_cons, ih, List.map_cons]

namespace Index

variable {x y : Index} {R R' : Reference → Option NodeId} {M M' : NodeId → Option NodeId}
variable {r : Reference} {p mem : NodeId}

/-- The index has recorded the references `R`, and for their users the members `M`. -/
structure Shows (x : Index) (R : Reference → Option NodeId) (M : NodeId → Option NodeId) :
    Prop where
  assigned : ∀ r, x.provider? r = R r
  bucket : ∀ p r, (x.bucket p)[r]? = if R r = some p then M r.user else none
  owned : ∀ {r p}, R r = some p → ∃ mem, M r.user = some mem
  occupied : ∀ p, p ∈ x.users ↔ ∃ r, R r = some p

namespace Shows

/-- Every recorded reference stands in its bucket with the member of its user. -/
theorem entry (h : x.Shows R M) (hr : R r = some p) :
    ∃ mem, M r.user = some mem ∧ (x.bucket p)[r]? = some mem := by
  obtain ⟨mem, hm⟩ := h.owned hr
  exact ⟨mem, hm, by rw [h.bucket p r, if_pos hr, hm]⟩

/-- An index that shows something has its two maps inverse. -/
theorem inverse (h : x.Shows R M) : x.Inverse where
  bucket {r p} := by
    rw [Std.TreeMap.mem_iff_isSome_getElem?, h.bucket p r, h.assigned r]
    by_cases hr : R r = some p
    · obtain ⟨mem, hm, -⟩ := h.entry hr
      simp [hr, hm]
    · simp [hr]
  occupied {p} hp := by
    obtain ⟨r, hr⟩ := (h.occupied p).mp hp
    obtain ⟨mem, -, hb⟩ := h.entry hr
    exact ⟨r, Std.TreeMap.mem_iff_isSome_getElem?.mpr (by rw [hb]; rfl)⟩

/-- Inverse maps show what the map forward has, if the references stand with the members of their
users in the map back. -/
theorem of_inverse (h : x.Inverse) (hR : x.provider? = R)
    (hentry : ∀ {r p}, R r = some p → ∃ mem, M r.user = some mem ∧ (x.bucket p)[r]? = some mem) :
    x.Shows R M where
  assigned := congrFun hR
  bucket p r := by
    split
    · next hr =>
      obtain ⟨mem, hm, hb⟩ := hentry hr
      rw [hm, hb]
    · next hr =>
      refine Std.TreeMap.getElem?_eq_none fun hmem => hr ?_
      rw [← hR]
      exact h.bucket.mp hmem
  owned hr := by
    obtain ⟨mem, hm, -⟩ := hentry hr
    exact ⟨mem, hm⟩
  occupied p := by
    rw [h.mem_users_iff, hR]

theorem empty (M : NodeId → Option NodeId) : Index.empty.Shows (fun _ => none) M :=
  .of_inverse .empty (funext fun r => by simp [provider?, Index.empty]) fun h => nomatch h

/-- Only the members of nodes that have a reference matter. -/
theorem congr (h : x.Shows R M) (hR : ∀ r, R' r = R r)
    (hM : ∀ r p, R r = some p → M' r.user = M r.user) : x.Shows R' M' := by
  obtain rfl : R' = R := funext hR
  refine ⟨h.assigned, fun p r => ?_, fun {r p} hr => ?_, h.occupied⟩
  · rw [h.bucket p r]
    by_cases hr : R' r = some p
    · rw [if_pos hr, if_pos hr, hM r p hr]
    · rw [if_neg hr, if_neg hr]
  · rw [hM r p hr]
    exact h.owned hr

/-- Recording a reference that is not recorded yet. -/
theorem record (h : x.Shows R M) (hr : R r = none) (hm : M r.user = some mem) (p : NodeId) :
    (x.record r p mem).Shows (Function.update R r (some p)) M := by
  refine .of_inverse (h.inverse.record ((h.assigned r).trans hr) p mem) ?_ fun {s q} hs => ?_
  · rw [provider?_record, funext h.assigned]
  · rw [bucket_record]
    by_cases hsr : s = r
    · subst hsr
      rw [Function.update_self] at hs
      exact ⟨mem, hm, by rw [if_pos (Option.some.inj hs), Std.TreeMap.getElem?_insert_self]⟩
    · rw [Function.update_of_ne hsr] at hs
      obtain ⟨mem', hm', hb⟩ := h.entry hs
      refine ⟨mem', hm', ?_⟩
      split
      · next hq => rw [Std.TreeMap.getElem?_insert, if_neg (by simpa using Ne.symm hsr), hq, hb]
      · exact hb

/-- Forgetting a reference, recorded or not. -/
theorem forget (h : x.Shows R M) (r : Reference) :
    (x.forget r).Shows (Function.update R r none) M := by
  refine .of_inverse (h.inverse.forget r) ?_ fun {s q} hs => ?_
  · rw [provider?_forget, funext h.assigned]
  · obtain ⟨hsr, hs⟩ := update_none_eq_some_iff.mp hs
    obtain ⟨mem, hm, hb⟩ := h.entry hs
    refine ⟨mem, hm, ?_⟩
    cases hr : x.provider? r with
    | none => rwa [forget_of_none hr]
    | some p =>
      rw [getElem?_bucket_forget hr]
      split
      · next hq => rw [Std.TreeMap.getElem?_erase, if_neg (by simpa using Ne.symm hsr), hq, hb]
      · exact hb

/-! ### Answers of an index -/

theorem mem_usersOf (h : x.Shows R M) {s : Reference} : s ∈ x.usersOf p ↔ R s = some p := by
  rw [h.inverse.mem_usersOf, h.assigned s]

theorem mem_whereUsed (h : x.Shows R M) :
    mem ∈ x.whereUsed p ↔ ∃ s, R s = some p ∧ M s.user = some mem := by
  have hentry (s) : (s, mem) ∈ (x.bucket p).toList ↔ R s = some p ∧ M s.user = some mem := by
    rw [Std.TreeMap.mem_toList_iff_getElem?_eq_some, h.bucket p s]
    by_cases hs : R s = some p <;> simp [hs]
  rw [whereUsed, Std.TreeMap.mem_keys, Std.TreeMap.mem_ofList, values_eq_map]
  simp only [List.map_map, List.contains_iff_mem, List.mem_map, Prod.exists, Function.comp_apply]
  constructor
  · rintro ⟨s, _, hs, rfl⟩
    exact ⟨s, (hentry s).mp hs⟩
  · rintro ⟨s, hs⟩
    exact ⟨s, mem, (hentry s).mpr hs, rfl⟩

theorem mem_providers (h : x.Shows R M) : p ∈ x.providers ↔ ∃ s, R s = some p := by
  rw [mem_providers_iff_mem_users, h.occupied p]

/-- Indexes that show the same give the same answers. -/
theorem usersOf_eq (h : x.Shows R M) (h' : y.Shows R M) (p : NodeId) :
    x.usersOf p = y.usersOf p :=
  eq_of_increasing Std.TreeMap.ordered_keys Std.TreeMap.ordered_keys fun _ =>
    h.mem_usersOf.trans h'.mem_usersOf.symm

theorem whereUsed_eq (h : x.Shows R M) (h' : y.Shows R M) (p : NodeId) :
    x.whereUsed p = y.whereUsed p :=
  eq_of_increasing Std.TreeMap.ordered_keys Std.TreeMap.ordered_keys fun _ =>
    h.mem_whereUsed.trans h'.mem_whereUsed.symm

theorem providers_eq (h : x.Shows R M) (h' : y.Shows R M) : x.providers = y.providers :=
  eq_of_increasing Std.TreeMap.ordered_keys Std.TreeMap.ordered_keys fun _ =>
    h.mem_providers.trans h'.mem_providers.symm

end Shows

theorem whereUsed_increasing (x : Index) (p : NodeId) :
    (x.whereUsed p).Pairwise fun a b => a.index < b.index := by
  have hkeys : (x.whereUsed p).Pairwise fun a b => compare a b = .lt := Std.TreeMap.ordered_keys
  exact hkeys.imp fun h => Nat.compare_eq_lt.mp h

end Index

end SchemaEditor.Usage
