import Mathlib.Data.List.Chain
import Mathlib.Logic.Function.Basic
import SchemaEditor.Proofs.Model.Cycle
import SchemaEditor.Proofs.Model.Lookup

/-!
# Chains of bases

A node has at most one base, so from every node one chain of bases goes on: it ends, or it runs into
a cycle. `baseChain` lists all nodes of the chain but the one it starts from, although it stops at
the first repetition and after a bounded number of steps. `Ascends` is the walk from base to base as
it goes on without a bound, in rounds that look at one base each: on every model it ends in no more
rounds than there are nodes, with this list.

A base that is replaced closes a cycle exactly if the new base already led back to the node; no
other node then comes to lie on a cycle.
-/

namespace SchemaEditor.Model

open Relation (TransGen ReflTransGen)

variable {m m' : Model} {a b u x : NodeId}

/-- One node has the other as its base. -/
def HasBase (m : Model) (x b : NodeId) : Prop := m.base? x = some b

/-- A node is its own base, or the base of its base, and so on. -/
def OnBaseCycle (m : Model) (x : NodeId) : Prop := TransGen m.HasBase x x

theorem HasBase.unique : Relator.RightUnique m.HasBase := fun _ _ _ ha hb =>
  Option.some.inj (ha.symm.trans hb)

theorem HasBase.exists_node? (h : m.HasBase x b) : ∃ n, m.node? x = some n := by
  obtain ⟨n, hn, -⟩ := Option.bind_eq_some_iff.mp h
  exact ⟨n, hn⟩

theorem not_transGen_of_base?_none (h : m.base? x = none) : ¬ TransGen m.HasBase x a := by
  intro hxa
  obtain ⟨c, hc, -⟩ := TransGen.head'_iff.mp hxa
  cases h.symm.trans hc

/-! ### The list of bases -/

theorem of_mem_basesFrom {fuel : Nat} {seen : List NodeId}
    (h : a ∈ m.basesFrom fuel seen (m.base? x)) : TransGen m.HasBase x a ∧ a ∉ seen := by
  induction fuel generalizing seen x with
  | zero => simp [basesFrom] at h
  | succ fuel ih =>
    cases hx : m.base? x with
    | none => simp [hx, basesFrom] at h
    | some b =>
      rw [hx, basesFrom] at h
      split at h
      · cases h
      · next hseen =>
        obtain rfl | h := List.mem_cons.mp h
        · exact ⟨.single hx, hseen⟩
        · obtain ⟨hba, hnot⟩ := ih h
          exact ⟨.head hx hba, fun hmem => hnot (List.mem_cons_of_mem _ hmem)⟩

theorem nodup_basesFrom {fuel : Nat} {seen : List NodeId} :
    (m.basesFrom fuel seen (m.base? x)).Nodup := by
  induction fuel generalizing seen x with
  | zero => simp [basesFrom]
  | succ fuel ih =>
    cases hx : m.base? x with
    | none => simp [basesFrom]
    | some b =>
      rw [basesFrom]
      split
      · exact .nil
      · refine List.nodup_cons.mpr ⟨fun hmem => ?_, ih⟩
        exact (of_mem_basesFrom hmem).2 List.mem_cons_self

/-- No base comes twice in a chain. -/
theorem nodup_baseChain (m : Model) (x : NodeId) : (m.baseChain x).Nodup := nodup_basesFrom

/-- A list that has the base of each of its nodes has the whole chain. -/
theorem mem_of_closed {seen : List NodeId} (hclosed : ∀ y ∈ seen, ∀ c, m.HasBase y c → c ∈ seen)
    (h : ReflTransGen m.HasBase x a) (hx : x ∈ seen) : a ∈ seen := by
  induction h with
  | refl => exact hx
  | tail _ hbc ih => exact hclosed _ ih _ hbc

/-- A walk has come to `x`: the nodes seen on it are different and have all their bases, except
perhaps that of `x`. -/
structure Walked (m : Model) (x : NodeId) (seen : List NodeId) : Prop where
  nodup : seen.Nodup
  nodes : seen ⊆ x :: m.nodeIds
  closed : ∀ y ∈ seen, y ≠ x → ∀ c, m.HasBase y c → c ∈ seen

namespace Walked

variable {seen : List NodeId}

theorem start (m : Model) (x : NodeId) : Walked m x [x] where
  nodup := by simp
  nodes := by simp
  closed := fun _ hy hyx => absurd (List.mem_singleton.mp hy) hyx

/-- All nodes seen have their bases if the one that the walk has come to has. -/
theorem closed_of_mem (h : Walked m x seen) (hb : m.HasBase x b) (hseen : b ∈ seen) :
    ∀ y ∈ seen, ∀ c, m.HasBase y c → c ∈ seen := by
  intro y hy c hc
  by_cases hyx : y = x
  · exact HasBase.unique (hyx ▸ hc) hb ▸ hseen
  · exact h.closed y hy hyx c hc

theorem step (h : Walked m x seen) (hb : m.HasBase x b) (hseen : b ∉ seen) :
    Walked m b (b :: seen) where
  nodup := List.nodup_cons.mpr ⟨hseen, h.nodup⟩
  nodes := by
    obtain ⟨n, hn⟩ := hb.exists_node?
    refine List.cons_subset_cons b fun y hy => ?_
    obtain rfl | hy := List.mem_cons.mp (h.nodes hy)
    · exact mem_nodeIds.mpr (lt_of_node? hn)
    · exact hy
  closed := by
    intro y hy hyb c hc
    obtain rfl | hy := List.mem_cons.mp hy
    · exact absurd rfl hyb
    · by_cases hyx : y = x
      · exact HasBase.unique (hyx ▸ hc) hb ▸ List.mem_cons_self
      · exact List.mem_cons_of_mem _ (h.closed y hy hyx c hc)

/-- All nodes seen exist, except perhaps the last one. -/
theorem length_le (h : Walked m x seen) : seen.length ≤ m.nodes.size + 1 := by
  simpa [nodeIds] using h.nodup.length_le_of_subset h.nodes

end Walked

/-- As long as there are enough steps, the walk goes on to everything that is not seen yet. -/
theorem mem_basesFrom {fuel : Nat} {seen : List NodeId} (hw : Walked m x seen)
    (hfuel : m.nodes.size + 2 ≤ fuel + seen.length) (h : TransGen m.HasBase x a) (ha : a ∉ seen) :
    a ∈ m.basesFrom fuel seen (m.base? x) := by
  induction fuel generalizing seen x with
  | zero =>
    have := hw.length_le
    omega
  | succ fuel ih =>
    cases hb : m.base? x with
    | none => exact absurd h (not_transGen_of_base?_none hb)
    | some b =>
      have hba : ReflTransGen m.HasBase b a := next_of_unique HasBase.unique hb h
      rw [basesFrom]
      by_cases hseen : b ∈ seen
      · exact absurd (mem_of_closed (hw.closed_of_mem hb hseen) hba hseen) ha
      · rw [if_neg hseen]
        by_cases hab : a = b
        · exact hab ▸ List.mem_cons_self
        · have hnew : a ∉ b :: seen := fun hmem => (List.mem_cons.mp hmem).elim hab ha
          have hba := (Relation.reflTransGen_iff_eq_or_transGen.mp hba).resolve_left hab
          refine List.mem_cons_of_mem _ (ih (hw.step hb hseen) ?_ hba hnew)
          rw [List.length_cons]
          omega

/-- The chain of bases has every node that the bases lead to, except where it starts. -/
theorem mem_baseChain_iff : a ∈ m.baseChain x ↔ a ≠ x ∧ TransGen m.HasBase x a := by
  unfold baseChain
  constructor
  · intro h
    obtain ⟨hxa, hne⟩ := of_mem_basesFrom h
    exact ⟨fun he => hne (List.mem_singleton.mpr he), hxa⟩
  · rintro ⟨hne, hxa⟩
    refine mem_basesFrom (.start m x) (Nat.le_refl _) hxa fun hmem => ?_
    exact hne (List.mem_singleton.mp hmem)

/-- What the guard of an extension asks for: whether the bases of a node lead to another one. -/
theorem reaches_iff_mem_baseChain :
    ReflTransGen m.HasBase x a ↔ a = x ∨ a ∈ m.baseChain x := by
  rw [mem_baseChain_iff, Relation.reflTransGen_iff_eq_or_transGen]
  by_cases h : a = x <;> simp [h]

theorem onBaseCycle_iff_any :
    m.OnBaseCycle x ↔ (m.base? x).any (fun b => x = b ∨ x ∈ m.baseChain b) = true := by
  rw [Option.any_eq_true]
  constructor
  · intro hcycle
    obtain ⟨b, hb, hbx⟩ := TransGen.head'_iff.mp hcycle
    exact ⟨b, hb, decide_eq_true (reaches_iff_mem_baseChain.mp hbx)⟩
  · rintro ⟨b, hb, hbx⟩
    exact .head' hb (reaches_iff_mem_baseChain.mpr (of_decide_eq_true hbx))

instance : Decidable (m.OnBaseCycle x) := decidable_of_iff' _ onBaseCycle_iff_any

/-! ### The walk without a bound -/

/-- Going up from a base, past the nodes that were seen, takes a number of rounds and lists the
bases that were not. -/
inductive Ascends (m : Model) : List NodeId → Option NodeId → Nat → List NodeId → Prop
  | top {seen} : Ascends m seen none 0 []
  | repeated {seen b} (hb : b ∈ seen) : Ascends m seen (some b) 1 []
  | base {seen b rounds bases} (hb : b ∉ seen)
      (above : Ascends m (b :: seen) (m.base? b) rounds bases) :
      Ascends m seen (some b) (rounds + 1) (b :: bases)

variable {seen bases bases' : List NodeId} {current : Option NodeId} {rounds rounds' : Nat}

namespace Ascends

theorem unique (h : Ascends m seen current rounds bases)
    (h' : Ascends m seen current rounds' bases') : rounds' = rounds ∧ bases' = bases := by
  induction h generalizing rounds' bases' with
  | top =>
    cases h'
    exact ⟨rfl, rfl⟩
  | repeated hb =>
    cases h' with
    | repeated => exact ⟨rfl, rfl⟩
    | base hnot => exact absurd hb hnot
  | base hb _ ih =>
    cases h' with
    | repeated hmem => exact absurd hmem hb
    | base _ above =>
      obtain ⟨rfl, rfl⟩ := ih above
      exact ⟨rfl, rfl⟩

/-- Each round adds a node to those that were seen, but for a last one that repeats a node. -/
theorem rounds_le (hw : Walked m x seen) (h : Ascends m seen (m.base? x) rounds bases) :
    rounds + seen.length ≤ m.nodes.size + 1 := by
  generalize hcurrent : m.base? x = current at h
  induction h generalizing x with
  | top => simpa using hw.length_le
  | repeated =>
    -- The node that the walk has come to has a base, so it is one of the nodes.
    obtain ⟨n, hn⟩ := HasBase.exists_node? hcurrent
    have hnodes : x :: m.nodeIds ⊆ m.nodeIds :=
      List.cons_subset.mpr ⟨mem_nodeIds.mpr (lt_of_node? hn), List.Subset.refl _⟩
    have hlen := hw.nodup.length_le_of_subset (List.Subset.trans hw.nodes hnodes)
    rw [nodeIds, List.length_map, List.length_range] at hlen
    omega
  | base hb _ ih =>
    have hrest := ih (hw.step hcurrent hb) rfl
    rw [List.length_cons] at hrest
    omega

end Ascends

/-- With enough steps, the list of bases is the one of the walk without a bound. -/
theorem ascends_basesFrom {fuel : Nat} (hw : Walked m x seen)
    (hfuel : m.nodes.size + 2 ≤ fuel + seen.length) :
    ∃ rounds, Ascends m seen (m.base? x) rounds (m.basesFrom fuel seen (m.base? x)) := by
  induction fuel generalizing seen x with
  | zero =>
    have := hw.length_le
    omega
  | succ fuel ih =>
    cases hb : m.base? x with
    | none => exact ⟨0, .top⟩
    | some b =>
      rw [basesFrom]
      split
      · next hseen => exact ⟨1, .repeated hseen⟩
      · next hseen =>
        obtain ⟨rounds, above⟩ := ih (hw.step hb hseen) (by rw [List.length_cons]; omega)
        exact ⟨rounds + 1, .base hseen above⟩

/-- In a list of bases each is the base of the one before. -/
theorem isChain_basesFrom {fuel : Nat} :
    (x :: m.basesFrom fuel seen (m.base? x)).IsChain m.HasBase := by
  induction fuel generalizing seen x with
  | zero => exact .singleton x
  | succ fuel ih =>
    cases hb : m.base? x with
    | none => exact .singleton x
    | some b =>
      rw [basesFrom]
      split
      · exact .singleton x
      · exact .cons_cons hb ih

/-- On every model and from every node, the walk from base to base ends within as many rounds as
there are nodes, and only with the list of bases. The nodes in it are all different, and each is the
base of the one before, the first that of the node it starts from. It has every other node that the
bases lead to from there, and nothing else. -/
theorem baseChain_lists_ancestors (m : Model) (x : NodeId) :
    (∃ rounds ≤ m.nodes.size, ∀ r bases,
      Ascends m [x] (m.base? x) r bases ↔ r = rounds ∧ bases = m.baseChain x) ∧
    (m.baseChain x).Nodup ∧ x ∉ m.baseChain x ∧ (x :: m.baseChain x).IsChain m.HasBase ∧
    ∀ a, a ∈ m.baseChain x ↔ a ≠ x ∧ TransGen m.HasBase x a := by
  obtain ⟨rounds, hwalk⟩ := ascends_basesFrom (.start m x) (Nat.le_refl (m.nodes.size + 2))
  refine ⟨⟨rounds, ?_, fun r bases => ⟨hwalk.unique, ?_⟩⟩, nodup_baseChain m x, ?_,
    isChain_basesFrom, fun a => mem_baseChain_iff⟩
  · exact Nat.le_of_succ_le_succ (hwalk.rounds_le (.start m x))
  · rintro ⟨rfl, rfl⟩
    exact hwalk
  · exact fun hx => (mem_baseChain_iff.mp hx).1 rfl

/-- The first of three nodes leads to a cycle of the two others, one of which is detached. -/
example :
    let member (name : String) (base : Nat) (attached : Bool) : Node :=
      { Node.fresh (.member .businessObject) ⟨0⟩ none name with base := some ⟨base⟩, attached }
    let m : Model := ⟨#[], #[member "A" 1 true, member "B" 2 false, member "C" 1 true]⟩
    m.baseChain ⟨0⟩ = [⟨1⟩, ⟨2⟩] ∧ m.baseChain ⟨2⟩ = [⟨1⟩] := by
  decide

/-! ### Another base for one node -/

variable {base? : Option NodeId}

theorem base?_of_ne (h : m'.base? = Function.update m.base? u base?) {y : NodeId} (hy : y ≠ u) :
    m'.base? y = m.base? y := by
  rw [h, Function.update_of_ne hy]

/-- A node comes to lie on a cycle with its new base if and only if that leads back to it. -/
theorem onBaseCycle_iff_reaches (h : m'.base? = Function.update m.base? u (some b)) :
    m'.OnBaseCycle u ↔ ReflTransGen m.HasBase b u := by
  have hu : m'.HasBase u b := by rw [HasBase, h, Function.update_self]
  constructor
  · intro hcycle
    exact reaches_of_kept (fun y z hy hyz => (base?_of_ne h hy).symm.trans hyz)
      (next_of_unique HasBase.unique hu hcycle)
  · exact cycle_of_reaches hu fun y z hy hyz => (base?_of_ne h hy).trans hyz

/-- A new base that does not lead back puts no node on a cycle. -/
theorem onBaseCycle_of_base (h : m'.base? = Function.update m.base? u base?)
    (hu : ∀ b, base? = some b → ¬ ReflTransGen m.HasBase b u) (hx : m'.OnBaseCycle x) :
    m.OnBaseCycle x := by
  have hcases : ∀ y z, m'.HasBase y z → m.HasBase y z ∨ y = u ∧ base? = some z := by
    intro y z hyz
    by_cases hy : y = u
    · rw [HasBase, h, hy, Function.update_self] at hyz
      exact .inr ⟨hy, hyz⟩
    · exact .inl ((base?_of_ne h hy).symm.trans hyz)
  cases base? with
  | none => exact TransGen.mono (fun y z hyz => (hcases y z hyz).resolve_right nofun) x x hx
  | some b =>
    refine (cycle_cases (fun y z hyz => (hcases y z hyz).imp_right ?_) hx).resolve_right (hu b rfl)
    exact fun ⟨hy, hz⟩ => ⟨hy, (Option.some.inj hz).symm⟩

theorem onBaseCycle_congr (h : m'.base? = m.base?) : m'.OnBaseCycle x ↔ m.OnBaseCycle x := by
  have hbase : m'.HasBase = m.HasBase := by
    funext y c
    rw [HasBase, HasBase, h]
  rw [OnBaseCycle, OnBaseCycle, hbase]

end SchemaEditor.Model
