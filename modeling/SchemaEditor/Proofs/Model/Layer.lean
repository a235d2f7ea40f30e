import SchemaEditor.Proofs.Model.Detach
import SchemaEditor.Proofs.Model.Furnishing

/-!
# Facets below members

Standard facets are created together with their objects, so the owner of each is a member. Whatever
adds no other facet keeps this.
-/

namespace SchemaEditor

namespace NodeKind

variable {kind : NodeKind}

theorem isFacet_of_isMember (h : kind.isMember = true) : kind.isFacet = false := by
  cases kind with
  | facet => cases h
  | _ => rfl

theorem isFacet_of_isProperty (h : kind.isProperty = true) : kind.isFacet = false := by
  cases kind with
  | facet => cases h
  | _ => rfl

theorem isMember_of_isProperty (h : kind.isProperty = true) : kind.isMember = false := by
  cases kind with
  | property => rfl
  | _ => cases h

end NodeKind

namespace Model

variable {m m' : Model} {id : NodeId} {n : Node}

/-- Every standard facet is owned by a member. -/
def Layered (m : Model) : Prop :=
  ∀ id n, m.node? id = some n → n.kind.isFacet = true →
    ∃ o p, n.owner = some o ∧ m.node? o = some p ∧ p.kind.isMember = true

namespace Layered

theorem empty : Layered .empty := fun _ _ h => by simp [node?, Model.empty] at h

/-- A facet that is new has to have a member as its owner. -/
theorem of_extends (h : Layered m) (hm : Extends m m')
    (hnew : ∀ id n, m'.node? id = some n → n.kind.isFacet = true → (∃ k, m.node? id = some k) ∨
      ∃ o p, n.owner = some o ∧ m'.node? o = some p ∧ p.kind.isMember = true) : Layered m' := by
  intro id n hn hfacet
  obtain ⟨k, hk⟩ | hmember := hnew id n hn hfacet
  · obtain ⟨n', hn', hkind, howner, -⟩ := hm.same hk
    obtain rfl := Option.some.inj (hn'.symm.trans hn)
    obtain ⟨o, p, ho, hp, hpm⟩ := h _ k hk (hkind ▸ hfacet)
    obtain ⟨p', hp', hpk, -⟩ := hm.same hp
    exact ⟨o, p', howner.trans ho, hp', hpk ▸ hpm⟩
  · exact hmember

theorem modifyNode (h : Layered m) (id : NodeId) {f : Node → Node}
    (hf : ∀ n : Node, n.SamePlace (f n)) : Layered (m.modifyNode id f) := by
  refine h.of_extends (.modifyNode m id fun n => ⟨(hf n).kind, (hf n).owner, (hf n).library⟩)
    fun x n hn _ => .inl ?_
  apply exists_node?
  simpa using lt_of_node? hn

theorem appendChild (h : Layered m) {owner : NodeId} {p : Node} (hp : m.node? owner = some p)
    {kind : NodeKind} (hkind : kind.isFacet = false) (name : String) :
    Layered (m.appendChild owner p.library kind name).2 := by
  refine h.of_extends (.appendChild m owner _ kind name) fun x n hn hfacet => ?_
  obtain ⟨-, rfl⟩ | ⟨rfl, -⟩ | ⟨-, hn⟩ := appendChild_cases hp hn
  · cases hkind.symm.trans hfacet
  · exact .inl ⟨p, hp⟩
  · exact .inl ⟨n, hn⟩

theorem appendMember (h : Layered m) (library : LibraryId) {kind : NodeKind}
    (hkind : kind.isMember = true) (name : String) :
    Layered (m.appendMember library kind name).2 := by
  have htop := (furnished_appendMember m library kind name).top
  refine h.of_extends (.appendMember m library kind name) fun x n hn hfacet => ?_
  obtain rfl | ⟨_, role, -, -, rfl⟩ | hold := appendMember_cases hn
  · obtain rfl := Option.some.inj (htop.symm.trans hn)
    cases (NodeKind.isFacet_of_isMember hkind).symm.trans hfacet
  · exact .inr ⟨_, _, rfl, htop, hkind⟩
  · exact .inl ⟨n, hold⟩

theorem without (h : Layered m) (id : NodeId) (n : Node) : Layered (m.without id n) := by
  refine h.of_extends (.without m id n) fun x k hk _ => .inl ?_
  obtain ⟨k', hk', -⟩ := without_cases hk
  exact ⟨k', hk'⟩

end Layered

end Model

end SchemaEditor
