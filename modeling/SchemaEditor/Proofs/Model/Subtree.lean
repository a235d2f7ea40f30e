import Mathlib.Logic.Relation
import SchemaEditor.Proofs.Model.Arena

/-!
# Subtrees in pre-order

The walk over a stack yields the recursive listing of a node. In it the subtree of each node is one
piece without repetitions, so that a node comes before its children and the subtrees of siblings
come in their order. The nodes in it are those that are reached through children.
-/

namespace SchemaEditor.Model

open Relation (ReflTransGen)

variable {m : Model} {id x : NodeId} {n : Node}

/-- A node lists another one as its child. -/
def IsChild (m : Model) (p c : NodeId) : Prop := ∃ n, m.node? p = some n ∧ c ∈ n.children

namespace Forest

theorem children_exist (h : Forest m) (hn : m.node? id = some n) :
    ∀ c ∈ n.children, ∃ k, m.node? c = some k := fun _ hc =>
  (h.owned hn hc).imp fun _ hk => hk.1

/-- The list of a node has what is reached from it through children. -/
theorem mem_preorder_iff_reaches (h : Forest m) (hn : m.node? id = some n) :
    x ∈ m.preorder id ↔ ReflTransGen m.IsChild id x := by
  constructor
  · refine h.descend (P := fun id => x ∈ m.preorder id → ReflTransGen m.IsChild id x)
      (fun id n hn ih hx => ?_) hn
    rw [h.preorder_eq hn, List.mem_cons, List.mem_flatMap] at hx
    obtain rfl | ⟨c, hc, hx⟩ := hx
    · exact .refl
    · exact .head ⟨n, hn, hc⟩ (ih c hc hx)
  · intro hreach
    induction hreach with
    | refl => exact h.mem_preorder_self hn
    | tail _ hchild ih =>
      obtain ⟨k, hk, hc⟩ := hchild
      exact h.mem_preorder_of_child hn ih hk hc

/-- The list of a node that is listed is one piece of the whole list. -/
theorem preorder_infix (h : Forest m) (hn : m.node? id = some n) (hx : x ∈ m.preorder id) :
    m.preorder x <:+: m.preorder id := by
  refine h.descend (P := fun id => x ∈ m.preorder id → m.preorder x <:+: m.preorder id)
    (fun id n hn ih hx => ?_) hn hx
  rw [h.preorder_eq hn, List.mem_cons, List.mem_flatMap] at hx
  obtain rfl | ⟨c, hc, hx⟩ := hx
  · exact List.infix_rfl
  · obtain ⟨before, after, hchildren⟩ := List.append_of_mem hc
    have hpiece : m.preorder c <:+: n.children.flatMap m.preorder := by
      rw [hchildren, List.flatMap_append, List.flatMap_cons, ← List.append_assoc]
      exact List.infix_append _ _ _
    rw [h.preorder_eq hn]
    exact (ih c hc hx).trans (hpiece.trans (List.suffix_cons id _).isInfix)

end Forest

/-- Whatever was done to the empty model, the walk over a stack that starts with a node ends, and
the list that it yields is the recursive listing of the node, which comes first in it. The list has
every node that is reached from there through children, and no node twice; each node stands before
its children, and the listing of its children follows it. Below an attached node these are the
attached nodes that have it among their owners or are the node itself. -/
theorem subtree_lists_preorder (ops : List Op) (hn : (empty.after ops).node? id = some n) :
    ∃ ids, (empty.after ops).subtree id = .ok ids ∧
      (∀ xs, Visits (empty.after ops) [id] xs ↔ xs = ids) ∧
      (∀ xs, Listing (empty.after ops) [id] xs ↔ xs = ids) ∧
      ids.head? = some id ∧ ids.Nodup ∧
      (∀ x, x ∈ ids ↔ ReflTransGen (empty.after ops).IsChild id x) ∧
      (∀ p ∈ ids, ∀ k, (empty.after ops).node? p = some k →
        (∀ c ∈ k.children, [p, c].Sublist ids) ∧
        ∀ below, Listing (empty.after ops) k.children below → p :: below <:+: ids) ∧
      (n.attached = true → ∀ x, x ∈ ids ↔ Under (empty.after ops) id x ∧
        ∃ k, (empty.after ops).node? x = some k ∧ k.attached = true) := by
  have hf := Forest.empty.after ops
  generalize empty.after ops = m at *
  have hsubtree := hf.subtree_eq hn
  refine ⟨m.preorder id, hsubtree, fun xs => ?_, fun xs => ?_, ?_, hf.nodup_preorder hn,
    fun x => hf.mem_preorder_iff_reaches hn, fun p hp k hk => ?_,
    fun ha x => hf.mem_preorder_iff hn ha⟩
  · rw [hf.visits_iff hn, hsubtree, Except.ok.injEq, eq_comm]
  · rw [hf.listing_iff (List.forall_mem_singleton.mpr ⟨n, hn⟩), List.flatMap_singleton]
  · rw [hf.preorder_eq hn, List.head?_cons]
  · have hpiece := hf.preorder_infix hn hp
    rw [hf.preorder_eq hk] at hpiece
    refine ⟨fun c hc => .trans ?_ hpiece.sublist, fun below hbelow => ?_⟩
    · refine (List.singleton_sublist.mpr (List.mem_flatMap.mpr ⟨c, hc, ?_⟩)).cons_cons p
      obtain ⟨q, hq⟩ := hf.children_exist hk c hc
      exact hf.mem_preorder_self hq
    · rwa [hf.eq_of_listing hbelow]

/-- An object with a property in its second facet. -/
def opsOnNested : List Op :=
  [.addLibrary (.draft "Shop" "urn:shop"), .addMember ⟨0⟩ (.member .businessObject) "Order",
    .addChild ⟨2⟩ (.property .element) "Total"]

/-- The property is newer than the third facet, and yet listed before it. -/
theorem subtree_lists_preorder_nested :
    (∃ n, (empty.after opsOnNested).node? ⟨0⟩ = some n) ∧
      Listing (empty.after opsOnNested) [⟨0⟩] [⟨0⟩, ⟨1⟩, ⟨2⟩, ⟨4⟩, ⟨3⟩] ∧
      Under (empty.after opsOnNested) ⟨0⟩ ⟨4⟩ := by
  have hnode : ((empty.after opsOnNested).node? ⟨0⟩).map (·.attached) = some true := by
    decide +kernel
  obtain ⟨n, hn, ha⟩ := Option.map_eq_some_iff.mp hnode
  obtain ⟨ids, hsubtree, -, hlisting, -, -, -, -, hunder⟩ :=
    subtree_lists_preorder opsOnNested hn
  have hids : ((empty.after opsOnNested).subtree ⟨0⟩).toOption =
      some [⟨0⟩, ⟨1⟩, ⟨2⟩, ⟨4⟩, ⟨3⟩] := by
    decide +kernel
  obtain rfl := Except.ok.inj (hsubtree.symm.trans (Outcome.toOption_eq_some_iff.mp hids))
  exact ⟨⟨n, hn⟩, (hlisting _).mpr rfl, ((hunder ha ⟨4⟩).mp (by decide)).1⟩

end SchemaEditor.Model
