import SchemaEditor.Proofs.Graph.Detached
import SchemaEditor.Proofs.Graph.WhereUsed

/-!
# What a deletion clears

A deletion takes away a node with everything attached below it, and of the assignments exactly those
with an end among these nodes: `Prunes`. The references that the model stores and the index are both
compared, slot by slot. Nodes that were detached earlier store no reference (`Bare`), so that none of
them has an end that went unseen.
-/

namespace SchemaEditor

namespace Model

variable {m : Model} {x : NodeId} {n : Node} {slot : Usage.Slot} {r : Usage.Reference}

/-- What a node stores in a slot, whether it is attached or not. -/
def assigned? (m : Model) (r : Usage.Reference) : Option NodeId :=
  (m.node? r.user).bind r.slot.reference

/-- In a bare model the references of attached nodes are all that there are. -/
theorem Bare.assigned?_eq (h : Bare m) (r : Usage.Reference) : m.assigned? r = m.reference? r := by
  rw [assigned?, reference?]
  cases hn : m.node? r.user with
  | none => rfl
  | some n =>
    cases ha : n.attached with
    | true => simp [ha]
    | false => simp [ha, h r.user n r.slot hn ha]

end Model

namespace Graph

open Model (Bare Forest Under)

variable {P : Graph → Change → Prop} {g g' : Graph} {c : Change} {id : FacadeId}
variable {node x p top : NodeId} {n : Node} {r : Usage.Reference} {below gone : List NodeId}

/-! ### References -/

/-- Clearing keeps a reference that neither is one of the nodes below nor leads to one. -/
theorem Evolves.reference?_kept (h : Evolves (ClearsBelow below) g g')
    (href : g.model.reference? r = some p) (hu : r.user ∉ below) (hp : p ∉ below) :
    g'.model.reference? r = some p := by
  refine h.keeps (I := fun k => k.model.reference? r = some p) (fun hk hc hs => ?_) href
  obtain ⟨s, rfl, hs'⟩ := hc
  cases hs with
  | clear hn ha =>
    rw [Model.reference?_write hn ha, Function.update_of_ne, hk]
    rintro rfl
    exact hs'.elim hu fun hs' => hp (hs' p hk)

/-- The references that a deletion leaves are those with both ends outside. -/
theorem reference?_delete (hg : Managed g) (h : delete id g = .ok gone g') (r : Usage.Reference) :
    g'.model.reference? r =
      (g.model.reference? r).filter fun p => r.user ∉ gone ∧ p ∉ gone := by
  obtain ⟨node, g₁, hnode, rfl, hev, hstep⟩ := steps_of_delete hg h
  obtain ⟨-, n, -, -, hn, -⟩ := attachedNode_eq_ok_iff.mp hnode
  have hbelow : g₁.model.preorder node = g.model.preorder node :=
    hg.forest.preorder_congr (hev.managed hg).forest
      (fun hx => hev.samePlace_of_clearsBelow hx) hn
  cases hstep with
  | detach _ _ hr =>
    simp only [hbelow] at hr
    rw [Model.reference?_without, hbelow]
    refine Option.ext fun p => ?_
    rw [Option.filter_eq_some_iff, decide_eq_true_eq]
    constructor
    · intro hp
      split at hp
      · cases hp
      · exact ⟨hev.reference?_of_clearsBelow hp, hr r p hp⟩
    · rintro ⟨hp, hu, hout⟩
      rw [if_neg hu]
      exact hev.reference?_kept hp hu hout

/-! ### The index -/

section delete

variable (hg : Managed g) (h : delete id g = .ok gone g')
include hg h

theorem evolves_of_delete : Evolves (fun _ _ => True) g g' := by
  obtain ⟨_, g₁, -, -, hev, hstep⟩ := steps_of_delete hg h
  exact (hev.mono fun _ _ _ => trivial).step trivial hstep

/-- A reference is left if it was there and has no end that is gone. -/
theorem reference?_delete_eq_some_iff : g'.model.reference? r = some p ↔
    g.model.reference? r = some p ∧ r.user ∉ gone ∧ p ∉ gone := by
  rw [reference?_delete hg h, Option.filter_eq_some_iff, decide_eq_true_eq]

theorem mem_usersOf_delete :
    r ∈ g'.usage.usersOf p ↔ r ∈ g.usage.usersOf p ∧ r.user ∉ gone ∧ p ∉ gone := by
  rw [((evolves_of_delete hg h).managed hg).usage.mem_usersOf, hg.usage.mem_usersOf,
    reference?_delete_eq_some_iff hg h]

/-- A node is used where it was, through the references that are left. -/
theorem mem_whereUsed_delete : top ∈ g'.usage.whereUsed p ↔
    ∃ r, (r ∈ g.usage.usersOf p ∧ r.user ∉ gone ∧ p ∉ gone) ∧
      g.model.memberOf r.user = .ok top := by
  have hev := evolves_of_delete hg h
  have hg' := hev.managed hg
  rw [hg'.usage.mem_whereUsed]
  refine exists_congr fun r => ?_
  rw [← hg'.usage.mem_usersOf, mem_usersOf_delete hg h]
  refine and_congr_right fun hr => ?_
  obtain ⟨k, hk, -⟩ := Model.reference?_eq_some_iff.mp (hg.usage.mem_usersOf.mp hr.1)
  rw [hg.forest.member?_of_extends hg'.forest hev.extends_ hk, Model.member?_eq_some_iff]

end delete

/-! ### Deletions -/

/-- The nodes `gone`, in the order in which they are given, are detached, and the assignments with an
end among them are cleared: those and no others. -/
structure Prunes (g : Graph) (node : NodeId) (gone : List NodeId) (g' : Graph) : Prop where
  preorder : gone = g.model.preorder node
  below : ∀ x, x ∈ gone ↔ Under g.model node x ∧ g.model.IsAttached x
  detached : ∀ x, x ∈ gone ↔ g.model.IsAttached x ∧ g'.model.IsDetached x
  unassigned : ∀ x ∈ gone, ∀ slot, g'.usage.provider? ⟨x, slot⟩ = none
  unused : ∀ x ∈ gone, g'.usage.usersOf x = [] ∧ g'.usage.whereUsed x = []
  assigned : ∀ r, g'.model.assigned? r =
    (g.model.assigned? r).filter fun p => r.user ∉ gone ∧ p ∉ gone
  indexed : ∀ r, g'.usage.provider? r =
    (g.usage.provider? r).filter fun p => r.user ∉ gone ∧ p ∉ gone
  users : ∀ p, p ∉ gone → g'.usage.usersOf p = (g.usage.usersOf p).filter (·.user ∉ gone)
  members : ∀ p, p ∉ gone → ∀ top, top ∈ g'.usage.whereUsed p ↔
    ∃ r ∈ g.usage.usersOf p, r.user ∉ gone ∧ g.model.memberOf r.user = .ok top

/-- A deletion detaches what hangs below an attached node and clears what leads there or away. -/
theorem prunes_of_delete (hg : Managed g) (hb : Bare g.model)
    (hnode : g.attachedNode id = .ok node) (h : delete id g = .ok gone g') :
    Prunes g node gone g' := by
  obtain ⟨-, n, -, -, hn, ha⟩ := attachedNode_eq_ok_iff.mp hnode
  obtain ⟨node', -, hnode', hgone, -⟩ := steps_of_delete hg h
  obtain rfl := Except.ok.inj (hnode.symm.trans hnode')
  have hev := evolves_of_delete hg h
  have hg' := hev.managed hg
  have hindexed (r : Usage.Reference) : g'.usage.provider? r =
      (g.usage.provider? r).filter fun p => r.user ∉ gone ∧ p ∉ gone := by
    rw [hg'.usage.assigned r, hg.usage.assigned r, reference?_delete hg h]
  constructor
  case preorder => exact hgone
  case below =>
    intro x
    rw [hgone]
    exact hg.forest.mem_preorder_iff hn ha
  case detached =>
    intro x
    refine ⟨fun hx => ⟨(((delete_detaches hg hnode h).2 x).mp hx).1,
      (isDetached_delete_iff hg h).mpr (.inr hx)⟩, fun ⟨hx, hx'⟩ => ?_⟩
    exact ((isDetached_delete_iff hg h).mp hx').resolve_left fun hd => hd.not_isAttached hx
  case unassigned =>
    intro x hx slot
    rw [hindexed]
    simp [hx]
  case unused =>
    intro x hx
    refine ⟨List.eq_nil_iff_forall_not_mem.mpr fun r hr => ?_,
      List.eq_nil_iff_forall_not_mem.mpr fun top htop => ?_⟩
    · exact ((mem_usersOf_delete hg h).mp hr).2.2 hx
    · obtain ⟨r, ⟨-, -, hout⟩, -⟩ := (mem_whereUsed_delete hg h).mp htop
      exact hout hx
  case assigned =>
    intro r
    rw [(hev.bare hb).assigned?_eq, hb.assigned?_eq, reference?_delete hg h]
  case indexed => exact hindexed
  case users =>
    intro p hp
    refine Usage.eq_of_increasing Std.TreeMap.ordered_keys (.filter _ Std.TreeMap.ordered_keys) ?_
    intro r
    rw [List.mem_filter, decide_eq_true_eq]
    simpa [hp] using mem_usersOf_delete (r := r) (p := p) hg h
  case members =>
    intro p hp top
    rw [mem_whereUsed_delete hg h]
    simp [hp, and_assoc]

end Graph

namespace Snapshot

open SchemaEditor.Graph (Prunes attachedNode_eq_ok_iff evolves_after exists_ofModel)

variable {s : Snapshot} {loaded : Loaded}

/-- In a graph over the model of a snapshot, whatever was asked of it, an attached node of any kind
can be deleted through its facade. This gives the node and all that is attached below it, in
pre-order: a node before the nodes below its first child, these before those below the next one. It
detaches these nodes, no others, and clears exactly the assignments with an end among them. -/
theorem delete_prunes (h : s.load = .ok loaded) (v : Versioning) :
    ∃ g, Graph.ofModel loaded.model v = .ok g ∧ ∀ calls : List Graph.Call,
      (∀ x n, (g.after calls).model.node? x = some n → (g.after calls).model.preorder x =
        x :: n.children.flatMap (g.after calls).model.preorder) ∧
      ∀ id node, (g.after calls).nodeOf id = .ok node → (g.after calls).model.IsAttached node →
        ∃ gone g', Graph.delete id (g.after calls) = .ok gone g' ∧
          Prunes (g.after calls) node gone g' := by
  have hw := whole_of_load h
  obtain ⟨x, hgraph, hg⟩ := exists_ofModel hw.forest v
  refine ⟨_, hgraph, fun calls => ?_⟩
  have hev := evolves_after hg calls
  have hafter := hev.managed hg
  refine ⟨fun x n hn => hafter.forest.preorder_eq hn, fun id node hid hattached => ?_⟩
  obtain ⟨n, hn, ha⟩ := hattached
  obtain ⟨e, he, hnode⟩ := Graph.nodeOf_eq_ok_iff.mp hid
  have hnode := attachedNode_eq_ok_iff.mpr ⟨e, n, he, hnode, hn, ha⟩
  obtain ⟨_, g', hrun, -⟩ := Graph.delete_eq hafter hnode
  exact ⟨_, g', hrun, Graph.prunes_of_delete hafter (hev.bare hw.bare) hnode hrun⟩

/-- An order with a property that is its own type, one of the type of its neighbour and one of the
type of the other object; and an offer that extends the first property and has the others as types,
so that references lead into the order from outside and to nodes that provide no type. -/
def entangled : Snapshot :=
  shop
    [.object "Order" none
      [⟨.property .element, "Loop", some "Order.Loop", false, ""⟩,
        ⟨.property .element, "Next", some "Order.Loop", false, ""⟩,
        ⟨.property .element, "Away", some "Offer", false, ""⟩],
      { Member.object "Offer" none
          [⟨.property .element, "Inward", some "Order.Next", false, ""⟩,
            ⟨.property .element, "Own", some "Offer", false, ""⟩] with
        baseKey := some "Order.Loop" }]

/-- Before the order is deleted, its first property has three users, one of them itself; afterwards
only the reference within the offer is left. -/
theorem delete_prunes_entangled :
    ∃ loaded g gone g', entangled.load = .ok loaded ∧
      Graph.ofModel loaded.model (.chain none) = .ok g ∧
      let opened := g.after [.facadeFor ⟨0⟩]
      (opened.usage.usersOf ⟨4⟩ = [⟨⟨4⟩, .type⟩, ⟨⟨5⟩, .type⟩, ⟨⟨7⟩, .base⟩]) ∧
      Graph.delete ⟨0⟩ opened = .ok gone g' ∧ Prunes opened ⟨0⟩ gone g' := by
  obtain ⟨loaded, g, hload, hgraph, hp⟩ := exists_graph (s := entangled) (v := .chain none)
    (p := fun g =>
      let opened := g.after [.facadeFor ⟨0⟩]
      decide (opened.usage.usersOf ⟨4⟩ = [⟨⟨4⟩, .type⟩, ⟨⟨5⟩, .type⟩, ⟨⟨7⟩, .base⟩] ∧
        opened.nodeOf ⟨0⟩ = .ok ⟨0⟩ ∧ (opened.model.node? ⟨0⟩).any (·.attached))) (by decide +kernel)
  obtain ⟨husers, hnode, hattached⟩ := of_decide_eq_true hp
  obtain ⟨g₀, hgraph₀, hcalls⟩ := delete_prunes hload (.chain none)
  obtain rfl := Except.ok.inj (hgraph₀.symm.trans hgraph)
  obtain ⟨gone, g', hrun, hprunes⟩ := (hcalls [.facadeFor ⟨0⟩]).2 ⟨0⟩ ⟨0⟩ hnode
    (Option.any_eq_true _ _ |>.mp hattached)
  exact ⟨loaded, g₀, gone, g', hload, hgraph, husers, hrun, hprunes⟩

end Snapshot

end SchemaEditor
