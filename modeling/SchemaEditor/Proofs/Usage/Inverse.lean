import Mathlib.Logic.Function.Basic
import SchemaEditor.Usage.Index

/-!
# The two maps of an index

An index has its references twice: a map leads from each reference to the node it points at, and a
map back from each node to a bucket, the references that point at it. `Inverse` says that each of
the maps can be read off the other, and that no bucket is kept empty. `record` and `forget` write to
one map after the other and leave them inverse.
-/

namespace SchemaEditor.Usage

/-! ### The order of references -/

namespace Reference

instance : Std.TransCmp Reference.cmp :=
  inferInstanceAs (Std.TransCmp
    (compareLex (compareOn fun r : Reference => r.user.index) (compareOn fun r => r.slot.rank)))

/-- One reference comes before another: its node does, or of one node its slot. -/
def Before (a b : Reference) : Prop :=
  a.user.index < b.user.index ∨ a.user = b.user ∧ a.slot.rank < b.slot.rank

theorem Before.ne {a b : Reference} (h : a.Before b) : a ≠ b := by
  rintro rfl
  obtain h | ⟨-, h⟩ := h
  · exact Nat.lt_irrefl _ h
  · exact Nat.lt_irrefl _ h

theorem cmp_eq_lt_iff {a b : Reference} : cmp a b = .lt ↔ a.Before b := by
  obtain ⟨⟨i⟩, s⟩ := a
  obtain ⟨⟨j⟩, t⟩ := b
  simp [cmp, Before, Ordering.then_eq_lt, Nat.compare_eq_lt]

end Reference

theorem Slot.rank_injective {s t : Slot} (h : s.rank = t.rank) : s = t := by
  cases s <;> cases t <;> first | rfl | cases h

instance : Std.LawfulEqCmp Reference.cmp where
  eq_of_compare {a b} h := by
    obtain ⟨⟨i⟩, s⟩ := a
    obtain ⟨⟨j⟩, t⟩ := b
    obtain ⟨hi, hs⟩ := Ordering.then_eq_eq.mp h
    obtain rfl : i = j := Nat.compare_eq_eq.mp hi
    obtain rfl : s = t := Slot.rank_injective (Nat.compare_eq_eq.mp hs)
    rfl

namespace Index

variable {x : Index} {r s : Reference} {p q : NodeId}

theorem usersOf_increasing (x : Index) (p : NodeId) :
    (x.usersOf p).Pairwise Reference.Before := by
  have hkeys : (x.usersOf p).Pairwise fun a b => Reference.cmp a b = .lt :=
    Std.TreeMap.ordered_keys
  exact hkeys.imp Reference.cmp_eq_lt_iff.mp

theorem providers_increasing (x : Index) :
    x.providers.Pairwise fun a b => a.index < b.index := by
  have hkeys : x.providers.Pairwise fun a b => compare a b = .lt := Std.TreeMap.ordered_keys
  exact hkeys.imp fun h => Nat.compare_eq_lt.mp h

theorem mem_usersOf_iff_mem_bucket : r ∈ x.usersOf p ↔ r ∈ x.bucket p := Std.TreeMap.mem_keys

theorem mem_providers_iff_mem_users : p ∈ x.providers ↔ p ∈ x.users := Std.TreeMap.mem_keys

/-! ### What recording and forgetting do to the maps -/

theorem provider?_record (x : Index) (r : Reference) (p mem : NodeId) :
    (x.record r p mem).provider? = Function.update x.provider? r (some p) := by
  funext s
  simp only [provider?, record, Std.TreeMap.getElem?_insert, Std.LawfulEqCmp.compare_eq_iff_eq]
  by_cases hs : r = s
  · subst hs
    rw [if_pos rfl, Function.update_self]
  · rw [if_neg hs, Function.update_of_ne (Ne.symm hs)]
    rfl

theorem bucket_record (x : Index) (r : Reference) (p mem q : NodeId) :
    (x.record r p mem).bucket q = if p = q then (x.bucket p).insert r mem else x.bucket q := by
  simp only [bucket, record, Std.TreeMap.getElem?_insert, Std.LawfulEqCmp.compare_eq_iff_eq]
  split <;> rfl

theorem forget_of_provider (h : x.provider? r = some p) :
    x.forget r =
      ⟨if ((x.bucket p).erase r).isEmpty then x.users.erase p
        else x.users.insert p ((x.bucket p).erase r), x.assigned.erase r⟩ := by
  rw [Index.forget, h]

theorem forget_of_none (h : x.provider? r = none) : x.forget r = x := by
  rw [Index.forget, h]

theorem provider?_forget (x : Index) (r : Reference) :
    (x.forget r).provider? = Function.update x.provider? r none := by
  cases hr : x.provider? r with
  | none => rw [forget_of_none hr, Function.update_eq_self_iff.mpr hr.symm]
  | some p =>
    funext s
    simp only [provider?, forget_of_provider hr, Std.TreeMap.getElem?_erase,
      Std.LawfulEqCmp.compare_eq_iff_eq]
    by_cases hs : r = s
    · subst hs
      rw [if_pos rfl, Function.update_self]
    · rw [if_neg hs, Function.update_of_ne (Ne.symm hs)]
      rfl

/-- The bucket of the node that lost a user is what is left of it, dropped or not. -/
theorem getElem?_bucket_forget (h : x.provider? r = some p) (q : NodeId) (s : Reference) :
    ((x.forget r).bucket q)[s]? =
      if p = q then ((x.bucket p).erase r)[s]? else (x.bucket q)[s]? := by
  rw [forget_of_provider h]
  generalize (x.bucket p).erase r = rest
  simp only [Index.bucket]
  by_cases he : rest.isEmpty = true
  · rw [if_pos he, Std.TreeMap.getElem?_erase]
    by_cases hq : p = q
    · subst hq
      simp [Std.TreeMap.getElem?_of_isEmpty he]
    · rw [if_neg (by simpa using hq), if_neg hq]
  · rw [if_neg he, Std.TreeMap.getElem?_insert]
    by_cases hq : p = q
    · subst hq
      simp
    · rw [if_neg (by simpa using hq), if_neg hq]

theorem mem_users_forget (h : x.provider? r = some p) (q : NodeId) :
    q ∈ (x.forget r).users ↔
      if p = q then ((x.bucket p).erase r).isEmpty = false else q ∈ x.users := by
  rw [forget_of_provider h]
  generalize (x.bucket p).erase r = rest
  by_cases he : rest.isEmpty = true
  · rw [if_pos he, Std.TreeMap.mem_erase, he]
    by_cases hq : p = q <;> simp [hq]
  · simp only [if_neg he, Std.TreeMap.mem_insert, Std.LawfulEqCmp.compare_eq_iff_eq]
    by_cases hq : p = q <;> simp [hq, he]

/-- Without the reference `r`, the others are as they were. -/
theorem update_none_eq_some_iff {R : Reference → Option NodeId} :
    Function.update R r none s = some p ↔ s ≠ r ∧ R s = some p := by
  by_cases hs : s = r
  · subst hs
    simp
  · rw [Function.update_of_ne hs]
    exact ⟨fun h => ⟨hs, h⟩, fun h => h.2⟩

theorem bucket_eq_empty (h : p ∉ x.users) : x.bucket p = {} := by
  rw [bucket, Std.TreeMap.getElem?_eq_none h]
  rfl

/-! ### Inverse maps -/

/-- The map back has the references that the other map has, each in the bucket of the node that it
points at, and only nodes with references have a bucket. -/
structure Inverse (x : Index) : Prop where
  bucket : ∀ {r p}, r ∈ x.bucket p ↔ x.provider? r = some p
  occupied : ∀ {p}, p ∈ x.users → ∃ r, r ∈ x.bucket p

namespace Inverse

theorem empty : Inverse .empty where
  bucket {r p} := by
    rw [bucket_eq_empty (by simp [Index.empty])]
    simp [provider?, Index.empty]
  occupied h := by simp [Index.empty] at h

theorem mem_users_iff (h : x.Inverse) : p ∈ x.users ↔ ∃ r, x.provider? r = some p := by
  constructor
  · intro hp
    obtain ⟨r, hr⟩ := h.occupied hp
    exact ⟨r, h.bucket.mp hr⟩
  · rintro ⟨r, hr⟩
    by_contra hp
    have hmem := h.bucket.mpr hr
    rw [bucket_eq_empty hp] at hmem
    simp at hmem

theorem mem_usersOf (h : x.Inverse) : r ∈ x.usersOf p ↔ x.provider? r = some p :=
  mem_usersOf_iff_mem_bucket.trans h.bucket

/-- The nodes that something points at are those that have users. -/
theorem mem_providers (h : x.Inverse) : p ∈ x.providers ↔ x.usersOf p ≠ [] := by
  rw [mem_providers_iff_mem_users, h.mem_users_iff]
  constructor
  · rintro ⟨r, hr⟩
    exact List.ne_nil_of_mem (h.mem_usersOf.mpr hr)
  · intro hp
    obtain ⟨r, hr⟩ := List.exists_mem_of_ne_nil _ hp
    exact ⟨r, h.mem_usersOf.mp hr⟩

/-- Recording a reference that is not recorded yet. -/
theorem record (h : x.Inverse) (hr : x.provider? r = none) (p mem : NodeId) :
    (x.record r p mem).Inverse where
  bucket {s q} := by
    rw [bucket_record, provider?_record]
    by_cases hs : s = r
    · subst hs
      rw [Function.update_self]
      by_cases hq : p = q
      · simp [hq]
      · simp [hq, h.bucket, hr]
    · rw [Function.update_of_ne hs, ← h.bucket]
      split
      · next hq => simp [Ne.symm hs, hq]
      · rfl
  occupied {q} hq := by
    rw [bucket_record]
    by_cases hpq : p = q
    · exact ⟨r, by simp [hpq]⟩
    · rw [if_neg hpq]
      refine h.occupied ?_
      simpa [Index.record, hpq] using hq

/-- Forgetting a reference, recorded or not. -/
theorem forget (h : x.Inverse) (r : Reference) : (x.forget r).Inverse := by
  cases hr : x.provider? r with
  | none => rwa [forget_of_none hr]
  | some p =>
    have hmem (q : NodeId) (s : Reference) : s ∈ (x.forget r).bucket q ↔
        if p = q then s ∈ (x.bucket p).erase r else s ∈ x.bucket q := by
      simp only [Std.TreeMap.mem_iff_isSome_getElem?, getElem?_bucket_forget hr]
      split <;> rfl
    constructor
    · intro s q
      rw [hmem, provider?_forget, update_none_eq_some_iff]
      by_cases hq : p = q
      · rw [if_pos hq, Std.TreeMap.mem_erase, h.bucket, hq, Ne, Std.LawfulEqCmp.compare_eq_iff_eq]
        exact and_congr_left' ⟨Ne.symm, Ne.symm⟩
      · rw [if_neg hq, h.bucket]
        -- The forgotten reference pointed at `p`, so `q` has not lost it.
        refine ⟨fun hs => ⟨?_, hs⟩, fun hs => hs.2⟩
        rintro rfl
        exact hq (Option.some.inj (hr.symm.trans hs))
    · intro q hq
      rw [mem_users_forget hr] at hq
      by_cases hpq : p = q
      · rw [if_pos hpq] at hq
        simpa only [hmem, if_pos hpq] using Std.TreeMap.isEmpty_eq_false_iff_exists_mem.mp hq
      · rw [if_neg hpq] at hq
        simpa only [hmem, if_neg hpq] using h.occupied hq

end Inverse

end Index

end SchemaEditor.Usage
