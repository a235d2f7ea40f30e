import SchemaEditor.Proofs.Model.Chain
import SchemaEditor.Proofs.Version

/-!
# Succession in version chains

The libraries of a chain come by version, and those of one version in the order in which the model
has them. So the order does not depend on the library that is asked, any two libraries of a chain
come in one order only, and a library is the last one exactly if none comes after it.
-/

namespace SchemaEditor

namespace Model

variable {m : Model} {lib a b : LibraryId} {l k : Library}

/-- A library comes before another one of its chain: its version is smaller, or it has the same
version and the model has it first. -/
def Precedes (m : Model) (a b : LibraryId) : Prop :=
  ∃ k l, m.library? a = some k ∧ m.library? b = some l ∧ sameChain k l = true ∧
    (k.version < l.version ∨ k.version = l.version ∧ a.index < b.index)

/-- A library has a smaller version than another one of its chain. -/
def EarlierVersion (m : Model) (a b : LibraryId) : Prop :=
  ∃ k l, m.library? a = some k ∧ m.library? b = some l ∧ sameChain k l = true ∧
    k.version < l.version

theorem EarlierVersion.precedes (h : m.EarlierVersion a b) : m.Precedes a b := by
  obtain ⟨k, l, hk, hl, hs, hlt⟩ := h
  exact ⟨k, l, hk, hl, hs, .inl hlt⟩

theorem Precedes.asymm (h : m.Precedes a b) : ¬ m.Precedes b a := by
  obtain ⟨k, l, hk, hl, -, h⟩ := h
  rintro ⟨l', k', hl', hk', -, h'⟩
  obtain rfl := Option.some.inj (hl.symm.trans hl')
  obtain rfl := Option.some.inj (hk.symm.trans hk')
  obtain hlt | ⟨heq, hindex⟩ := h
  · obtain hlt' | ⟨heq', -⟩ := h'
    · exact Nat.lt_asymm hlt hlt'
    · exact Nat.lt_irrefl _ (heq' ▸ hlt)
  · obtain hlt' | ⟨-, hindex'⟩ := h'
    · exact Nat.lt_irrefl _ (heq ▸ hlt')
    · exact Nat.lt_asymm hindex hindex'

/-- No other library of its chain has the version of a library. -/
def Unrepeated (m : Model) (lib : LibraryId) (l : Library) : Prop :=
  ∀ other k, m.library? other = some k → sameChain k l = true → k.version = l.version →
    other = lib

namespace Unrepeated

/-- What comes before a library with a version of its own has a smaller version. -/
theorem precedes_left_iff (h : m.Unrepeated lib l) (hl : m.library? lib = some l) :
    m.Precedes a lib ↔ m.EarlierVersion a lib := by
  refine ⟨?_, EarlierVersion.precedes⟩
  rintro ⟨k, l', hk, hl', hs, hlt | ⟨heq, hindex⟩⟩
  · exact ⟨k, l', hk, hl', hs, hlt⟩
  · obtain rfl := Option.some.inj (hl.symm.trans hl')
    obtain rfl := h a k hk hs heq
    exact absurd hindex (Nat.lt_irrefl _)

/-- What comes after it has a greater one. -/
theorem precedes_right_iff (h : m.Unrepeated lib l) (hl : m.library? lib = some l) :
    m.Precedes lib a ↔ m.EarlierVersion lib a := by
  refine ⟨?_, EarlierVersion.precedes⟩
  rintro ⟨l', k, hl', hk, hs, hlt | ⟨heq, hindex⟩⟩
  · exact ⟨l', k, hl', hk, hs, hlt⟩
  · obtain rfl := Option.some.inj (hl.symm.trans hl')
    obtain rfl := h a k hk (sameChain_symm hs) heq.symm
    exact absurd hindex (Nat.lt_irrefl _)

end Unrepeated

/-! ### The order of a chain -/

/-- What a sort does not tell apart stays in its order. -/
theorem filter_mergeSort {α : Type} {le : α → α → Bool} {p : α → Bool} {s : List α}
    (trans : ∀ a b c, le a b = true → le b c = true → le a c = true)
    (total : ∀ a b, (le a b || le b a) = true)
    (hp : ∀ a b, p a = true → p b = true → le a b = true) :
    (s.mergeSort le).filter p = s.filter p := by
  have hsorted : (s.filter p).Pairwise fun a b => le a b = true := by
    refine List.Pairwise.imp_of_mem (R := fun _ _ => True) (fun ha hb _ => ?_)
      (List.pairwise_of_forall fun _ _ => trivial)
    exact hp _ _ (List.mem_filter.mp ha).2 (List.mem_filter.mp hb).2
  have hsub := (List.sublist_mergeSort trans total hsorted List.filter_sublist).filter p
  rw [List.filter_filter] at hsub
  simp only [Bool.and_self] at hsub
  exact (hsub.eq_of_length ((List.mergeSort_perm s le).filter p).length_eq.symm).symm

theorem versions_trans (a b c : LibraryId × Version) (hab : decide (a.2 ≤ b.2) = true)
    (hbc : decide (b.2 ≤ c.2) = true) : decide (a.2 ≤ c.2) = true :=
  decide_eq_true (Nat.le_trans (of_decide_eq_true hab) (of_decide_eq_true hbc))

theorem versions_total (a b : LibraryId × Version) :
    (decide (a.2 ≤ b.2) || decide (b.2 ≤ a.2)) = true := by
  rw [Bool.or_eq_true]
  exact (Nat.le_total a.2.rank b.2.rank).imp decide_eq_true decide_eq_true

/-- The libraries of a chain come in the order that the model lists them in. -/
theorem sublist_versions (m : Model) (l : Library) :
    ((m.versions l).map (·.1)).Sublist m.libraryIds := by
  rw [versions]
  induction m.libraryIds with
  | nil => exact .slnil
  | cons id ids ih =>
    rw [List.filterMap_cons]
    split
    · exact ih.cons id
    · next entry hentry =>
      split at hentry
      · split at hentry
        · obtain rfl := Option.some.inj hentry
          exact ih.cons_cons id
        · cases hentry
      · cases hentry

/-- The model has its libraries in the order of their positions. -/
theorem pairwise_versions (m : Model) (l : Library) :
    (m.versions l).Pairwise fun a b => a.1.index < b.1.index := by
  have hids : m.libraryIds.Pairwise fun a b => a.index < b.index :=
    List.pairwise_map.mpr List.pairwise_lt_range
  have hversions := hids.sublist (sublist_versions m l)
  rwa [List.pairwise_map] at hversions

/-- The libraries of a chain come one after the other. -/
theorem pairwise_precedes_chain (hl : m.library? lib = some l) :
    (m.chain lib).Pairwise m.Precedes := by
  rw [chain_eq hl, List.pairwise_map, List.pairwise_iff_forall_sublist]
  intro x y hxy
  obtain ⟨k, hk, hkl, hx⟩ := mem_versions_iff.mp (List.mem_mergeSort.mp
    (hxy.subset List.mem_cons_self))
  obtain ⟨k', hk', hkl', hy⟩ := mem_versions_iff.mp (List.mem_mergeSort.mp
    (hxy.subset (List.mem_cons_of_mem _ List.mem_cons_self)))
  have hle := List.pairwise_iff_forall_sublist.mp
    (List.pairwise_mergeSort versions_trans versions_total (m.versions l)) hxy
  refine ⟨k, k', hk, hk', (sameChain_congr hkl' k).trans hkl, ?_⟩
  rw [← hx, ← hy]
  refine (Version.lt_or_eq_of_le (of_decide_eq_true hle)).imp_right fun heq => ⟨heq, ?_⟩
  -- Among the libraries of this version the sort has moved nothing.
  have hsame := hxy.filter fun z => decide (z.2 = x.2)
  rw [filter_mergeSort versions_trans versions_total fun a b ha hb => decide_eq_true (Nat.le_of_eq
    (congrArg _ ((of_decide_eq_true ha).trans (of_decide_eq_true hb).symm)))] at hsame
  simp only [List.filter_cons, heq, decide_true, if_true, List.filter_nil] at hsame
  exact List.pairwise_iff_forall_sublist.mp (pairwise_versions m l)
    (hsame.trans List.filter_sublist)

/-- Of two libraries of a chain, one comes before the other. -/
theorem precedes_or_precedes (hk : m.library? a = some k) (hl : m.library? b = some l)
    (hs : sameChain k l = true) (hne : a ≠ b) : m.Precedes a b ∨ m.Precedes b a := by
  have hs' := sameChain_symm hs
  rcases Nat.lt_trichotomy k.version.rank l.version.rank with hlt | heq | hgt
  · exact .inl ⟨k, l, hk, hl, hs, .inl hlt⟩
  · have hversion := Version.rank_injective heq
    have hindex : a.index ≠ b.index := fun h => hne (by cases a; cases b; exact congrArg _ h)
    exact (Nat.lt_or_gt_of_ne hindex).imp
      (fun h => ⟨k, l, hk, hl, hs, .inr ⟨hversion, h⟩⟩)
      fun h => ⟨l, k, hl, hk, hs', .inr ⟨hversion.symm, h⟩⟩
  · exact .inr ⟨l, k, hl, hk, hs', .inl hgt⟩

theorem Precedes.mem_chain (h : m.Precedes a b) : a ∈ m.chain b ∧ b ∈ m.chain a := by
  obtain ⟨k, l, hk, hl, hs, -⟩ := h
  have ha : a ∈ m.chain b := (mem_chain_iff hl).mpr ⟨k, hk, hs⟩
  exact ⟨ha, chain_eq_of_mem hl ha ▸ mem_chain_self hl⟩

/-- A library is the last one of its chain exactly if none comes after it. -/
theorem getLast?_chain_eq_iff (hl : m.library? lib = some l) :
    (m.chain lib).getLast? = some lib ↔ ∀ later, ¬ m.Precedes lib later := by
  have hsorted := pairwise_precedes_chain hl
  constructor
  · intro hlast later hlater
    obtain ⟨front, hchain⟩ := List.getLast?_eq_some_iff.mp hlast
    have hmem := hlater.mem_chain.2
    rw [hchain] at hsorted hmem
    obtain hmem | hmem := List.mem_append.mp hmem
    · exact hlater.asymm ((List.pairwise_append.mp hsorted).2.2 later hmem lib
        (List.mem_singleton.mpr rfl))
    · obtain rfl := List.mem_singleton.mp hmem
      exact hlater.asymm hlater
  · intro hnone
    have hself := mem_chain_self hl
    cases hlast : (m.chain lib).getLast? with
    | none =>
      rw [List.getLast?_eq_none_iff.mp hlast] at hself
      cases hself
    | some last =>
      obtain ⟨front, hchain⟩ := List.getLast?_eq_some_iff.mp hlast
      rw [hchain] at hsorted hself
      obtain hself | hself := List.mem_append.mp hself
      · exact absurd ((List.pairwise_append.mp hsorted).2.2 lib hself last
          (List.mem_singleton.mpr rfl)) (hnone last)
      · exact congrArg some (List.mem_singleton.mp hself).symm

/-- The last library of a chain is not alone in it exactly if one comes before it. -/
theorem one_lt_length_chain_iff (hl : m.library? lib = some l)
    (hlast : ∀ later, ¬ m.Precedes lib later) :
    1 < (m.chain lib).length ↔ ∃ earlier, m.Precedes earlier lib := by
  constructor
  · intro hlength
    obtain ⟨front, hchain⟩ :=
      List.getLast?_eq_some_iff.mp ((getLast?_chain_eq_iff hl).mpr hlast)
    have hsorted := pairwise_precedes_chain hl
    rw [hchain] at hsorted hlength
    cases front with
    | nil => cases Nat.lt_irrefl _ hlength
    | cons earlier front =>
      exact ⟨earlier, (List.pairwise_append.mp hsorted).2.2 earlier List.mem_cons_self lib
        (List.mem_singleton.mpr rfl)⟩
  · rintro ⟨earlier, hearlier⟩
    refine one_lt_length_chain hl hearlier.mem_chain.1 ?_
    rintro rfl
    exact hearlier.asymm hearlier

end Model

end SchemaEditor
