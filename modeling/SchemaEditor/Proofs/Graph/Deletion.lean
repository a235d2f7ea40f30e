import SchemaEditor.Proofs.Graph.Types

/-!
# Deleting

Deleting an attached node of a managed graph always succeeds. First the references of the nodes
below and to the nodes below are cleared, one by one; then no reference is left that the detached
nodes take part in, and they are detached in one step.
-/

namespace SchemaEditor.Graph

open Outcome (bind_ok bind_error)

variable {P : Graph → Change → Prop} {g g' : Graph} {id : FacadeId} {node : NodeId} {n : Node}
variable {r : Usage.Reference} {below : List NodeId}

/-- A reference is cleared that is one of the nodes below or leads, if anywhere, to one. -/
def ClearsBelow (below : List NodeId) (g : Graph) (c : Change) : Prop :=
  ∃ r, c = .clear r ∧ (r.user ∈ below ∨ ∀ p, g.model.reference? r = some p → p ∈ below)

/-- No reference is one of the node or leads to it. -/
def Unreferenced (node : NodeId) (g : Graph) : Prop :=
  ∀ r p, g.model.reference? r = some p → r.user ≠ node ∧ p ≠ node

namespace Evolves

/-- Clearing sets no reference. -/
theorem reference?_of_clearsBelow (h : Evolves (ClearsBelow below) g g') {p : NodeId}
    (hp : g'.model.reference? r = some p) : g.model.reference? r = some p := by
  refine h.keeps (I := fun k => k.model.reference? r = some p → g.model.reference? r = some p)
    (fun hk hc hs hp => hk ?_) id hp
  obtain ⟨s, rfl, -⟩ := hc
  cases hs with
  | clear hn ha =>
    rw [Model.reference?_write hn ha] at hp
    by_cases hr : r = s
    · rw [hr, Function.update_self] at hp
      cases hp
    · rwa [Function.update_of_ne hr] at hp

/-- Clearing moves no node. -/
theorem samePlace_of_clearsBelow (h : Evolves (ClearsBelow below) g g') {x : NodeId}
    (hn : g.model.node? x = some n) : ∃ n', g'.model.node? x = some n' ∧ n.SamePlace n' := by
  refine h.keeps (I := fun k => ∃ n', k.model.node? x = some n' ∧ n.SamePlace n')
    (fun hk hc hs => ?_) ⟨n, hn, .refl n⟩
  obtain ⟨n', hn', hsame⟩ := hk
  obtain ⟨s, rfl, -⟩ := hc
  cases hs with
  | clear =>
    rw [Model.node?_modifyNode, hn']
    split
    · exact ⟨_, rfl, hsame.trans (s.slot.samePlace_put none n')⟩
    · exact ⟨n', rfl, hsame⟩

theorem unreferenced (h : Evolves (ClearsBelow below) g g') (hu : Unreferenced node g) :
    Unreferenced node g' :=
  fun r p hp => hu r p (h.reference?_of_clearsBelow hp)

end Evolves

/-! ### Clearing -/

theorem unassign_eq (hg : Managed g) (hn : g.model.node? r.user = some n) (ha : n.attached = true)
    (hr : r.user ∈ below ∨ ∀ p, g.model.reference? r = some p → p ∈ below) :
    ∃ g', (do let _ ← editUsage fun x m => x.unassign m r : Edit PUnit) g = .ok ⟨⟩ g' ∧
      Evolves (ClearsBelow below) g g' ∧ g'.model.reference? r = none := by
  obtain ⟨g', hrun, hstep⟩ := editUsage_unassign hg hn ha
  refine ⟨g', bind_ok hrun, .single ⟨r, rfl, hr⟩ hstep, ?_⟩
  cases hstep with
  | clear hn ha => rw [Model.reference?_write hn ha, Function.update_self]

theorem clearIfSet_apply (r : Usage.Reference) (g : Graph) :
    clearIfSet r g = (if (g.usage.provider? r).isSome then do
      let _ ← editUsage fun x m => x.unassign m r else pure ⟨⟩ : Edit PUnit) g := rfl

theorem clearIfSet_eq (hg : Managed g) (hr : r.user ∈ below) :
    ∃ g', clearIfSet r g = .ok ⟨⟩ g' ∧ Evolves (ClearsBelow below) g g' ∧
      g'.model.reference? r = none := by
  cases href : g.model.reference? r with
  | none =>
    refine ⟨g, ?_, .refl, href⟩
    rw [clearIfSet_apply, hg.usage.assigned r, href]
    rfl
  | some p =>
    obtain ⟨n, hn, ha, -⟩ := Model.reference?_eq_some_iff.mp href
    obtain ⟨g', hrun, hev, hnone⟩ := unassign_eq hg hn ha (.inl hr)
    refine ⟨g', ?_, hev, hnone⟩
    rw [clearIfSet_apply, hg.usage.assigned r, href, ← hrun]
    rfl

theorem clearReferences_eq (hg : Managed g) (hnode : node ∈ below) :
    ∃ g', clearReferences node g = .ok ⟨⟩ g' ∧ Evolves (ClearsBelow below) g g' ∧
      Unreferenced node g' := by
  obtain ⟨g₁, hrun₁, hev₁, htype⟩ := clearIfSet_eq (r := ⟨node, .type⟩) hg hnode
  obtain ⟨g₂, hrun₂, hev₂, hbase⟩ :=
    clearIfSet_eq (r := ⟨node, .base⟩) (hev₁.managed hg) hnode
  have hg₂ := hev₂.managed (hev₁.managed hg)
  -- The users of the node are attached, and stay so while their references are cleared.
  obtain ⟨g₃, hrun₃, hev₃, husers⟩ := forM_establishes (P := ClearsBelow below) (g := g₂)
    (T := fun r k => k.model.reference? r = none) (l := g₂.usage.usersOf node)
    (f := fun r => do let _ ← editUsage fun x m => x.unassign m r)
    (fun r _ _ _ hev hnone => by
      rw [Option.eq_none_iff_forall_ne_some] at hnone ⊢
      exact fun p hp => hnone p (hev.reference?_of_clearsBelow hp))
    fun r hr k hev => by
      have href := hg₂.usage.mem_usersOf.mp hr
      obtain ⟨n, hn, ha, -⟩ := Model.reference?_eq_some_iff.mp href
      obtain ⟨n', hn', hsame⟩ := hev.samePlace_of_clearsBelow hn
      refine unassign_eq (hev.managed hg₂) hn' (hsame.attached.trans ha) (.inr fun p hp => ?_)
      have hp := hev.reference?_of_clearsBelow hp
      exact Option.some.inj (href.symm.trans hp) ▸ hnode
  refine ⟨g₃, ?_, (hev₁.trans hev₂).trans hev₃, fun r p hp => ⟨?_, ?_⟩⟩
  · rw [clearReferences, bind_ok hrun₁, bind_ok hrun₂]
    exact hrun₃
  · rintro rfl
    have hp₂ := hev₃.reference?_of_clearsBelow hp
    obtain ⟨user, slot⟩ := r
    cases slot with
    | type => cases htype.symm.trans (hev₂.reference?_of_clearsBelow hp₂)
    | base => cases hbase.symm.trans hp₂
  · rintro rfl
    have hmem := hg₂.usage.mem_usersOf.mpr (hev₃.reference?_of_clearsBelow hp)
    cases (husers r hmem).symm.trans hp

/-! ### Detaching -/

/-- Everything below a node is cleared and then detached. -/
theorem delete_eq (hg : Managed g) (hnode : g.attachedNode id = .ok node) :
    ∃ g₁ g', delete id g = .ok (g.model.preorder node) g' ∧
      Evolves (ClearsBelow (g.model.preorder node)) g g₁ ∧ Step g₁ (.detach node) g' := by
  obtain ⟨-, n, -, -, hn, ha⟩ := attachedNode_eq_ok_iff.mp hnode
  obtain ⟨g₁, hrun, hev, hclear⟩ := forM_establishes (g := g) (f := clearReferences)
    (P := ClearsBelow (g.model.preorder node)) (l := g.model.preorder node) (T := Unreferenced)
    (fun _ _ _ _ hev hu => hev.unreferenced hu)
    fun x hx k hev => clearReferences_eq (hev.managed hg) hx
  have hg₁ := hev.managed hg
  obtain ⟨n₁, hn₁, hsame⟩ := hev.samePlace_of_clearsBelow hn
  have ha₁ := hsame.attached.trans ha
  have hbelow : g₁.model.preorder node = g.model.preorder node :=
    hg.forest.preorder_congr hg₁.forest (fun hx => hev.samePlace_of_clearsBelow hx) hn
  refine ⟨g₁, _, ?_, hev, .detach hn₁ ha₁ fun r p hp => ?_⟩
  · rw [delete, bind_ok (ask_of_ok hnode),
      bind_ok (ask_of_ok (ofModelResult_of_ok (hg.forest.subtree_eq hn))), bind_ok hrun]
    simp only [editModelWith, hg₁.forest.detach_eq hn₁ ha₁, hbelow]
  · rw [hbelow]
    exact ⟨fun hx => (hclear _ hx r p hp).1 rfl, fun hx => (hclear _ hx r p hp).2 rfl⟩

theorem delete_atomic (hg : Managed g) (id : FacadeId) :
    Atomic Steady (delete id) g := by
  cases hnode : g.attachedNode id with
  | error err => exact .refused err (by rw [delete, bind_error (ask_of_error hnode)])
  | ok node =>
    obtain ⟨g₁, g', hrun, hev, hstep⟩ := delete_eq hg hnode
    have hclear : Evolves Steady g g₁ := hev.mono fun _ _ ⟨_, hc, _⟩ => hc ▸ ⟨trivial, trivial⟩
    have hdetach : Steady g₁ (.detach node) := ⟨trivial, trivial⟩
    exact .of_ok hrun (hclear.step hdetach hstep)

end SchemaEditor.Graph
