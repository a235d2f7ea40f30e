import SchemaEditor.Proofs.Model.Layer

/-!
# One facet in each role

The standard facets of an object come into being with it, one in each role, and nothing adds another
one. So an object never has two facets in one role, and no object or extension point is ever below
another node.
-/

namespace SchemaEditor

namespace Model

variable {m m' : Model}

/-- Owners come before what they own, members are owned by no node, and no two facets of a node are
in the same role. -/
structure Nested (m : Model) : Prop where
  older : ∀ {id n o}, m.node? id = some n → n.owner = some o → o.index < id.index
  inner : ∀ {id n o}, m.node? id = some n → n.owner = some o → n.kind.isMember = false
  single : ∀ {x y n k}, m.node? x = some n → m.node? y = some k → n.kind.isFacet = true →
    k.kind = n.kind → k.owner = n.owner → x = y

namespace Nested

theorem empty : Nested .empty := by
  constructor <;> intro id <;> simp [node?, Model.empty]

/-- What is new may be a member without an owner, or a part that is no facet. -/
theorem of_extends (h : Nested m) (hm : Extends m m')
    (hnew : ∀ id n, m'.node? id = some n → (∃ k, m.node? id = some k) ∨
      n.kind.isFacet = false ∧
        ∀ o, n.owner = some o → o.index < id.index ∧ n.kind.isMember = false) : Nested m' := by
  -- A facet is not new, so it has the kind and the owner that it had.
  have facet {id : NodeId} {n : Node} (hn : m'.node? id = some n) (hfacet : n.kind.isFacet = true) :
      ∃ k, m.node? id = some k ∧ n.kind = k.kind ∧ n.owner = k.owner := by
    obtain ⟨k, hk⟩ | ⟨hother, -⟩ := hnew id n hn
    · obtain ⟨n', hn', hkind, howner, -⟩ := hm.same hk
      obtain rfl := Option.some.inj (hn.symm.trans hn')
      exact ⟨k, hk, hkind, howner⟩
    · cases hother.symm.trans hfacet
  have part {id : NodeId} {n : Node} {o : NodeId} (hn : m'.node? id = some n)
      (ho : n.owner = some o) : o.index < id.index ∧ n.kind.isMember = false := by
    obtain ⟨k, hk⟩ | ⟨-, hpart⟩ := hnew id n hn
    · obtain ⟨n', hn', hkind, howner, -⟩ := hm.same hk
      obtain rfl := Option.some.inj (hn.symm.trans hn')
      have hko := howner.symm.trans ho
      exact ⟨h.older hk hko, hkind ▸ h.inner hk hko⟩
    · exact hpart o ho
  constructor
  case older => exact fun hn ho => (part hn ho).1
  case inner => exact fun hn ho => (part hn ho).2
  case single =>
    intro x y n k hn hk hfacet hkind howner
    obtain ⟨n₀, hn₀, hnk, hno⟩ := facet hn hfacet
    obtain ⟨k₀, hk₀, hkk, hko⟩ := facet hk (hkind ▸ hfacet)
    exact h.single hn₀ hk₀ (hnk ▸ hfacet) (hkk.symm.trans (hkind.trans hnk))
      (hko.symm.trans (howner.trans hno))

theorem of_nodes (h : Nested m) (hm : m'.nodes = m.nodes) : Nested m' :=
  h.of_extends (.of_nodes hm) fun _ n hn => .inl ⟨n, by rwa [node?, ← hm]⟩

theorem modifyNode (h : Nested m) (id : NodeId) {f : Node → Node}
    (hf : ∀ n : Node, n.SamePlace (f n)) : Nested (m.modifyNode id f) := by
  refine h.of_extends (.modifyNode m id fun n => ⟨(hf n).kind, (hf n).owner, (hf n).library⟩)
    fun x n hn => .inl (exists_node? ?_)
  simpa using lt_of_node? hn

theorem appendChild (h : Nested m) {owner : NodeId} {p : Node} (hp : m.node? owner = some p)
    {kind : NodeKind} (hkind : kind.isFacet = false ∧ kind.isMember = false) (name : String) :
    Nested (m.appendChild owner p.library kind name).2 := by
  refine h.of_extends (.appendChild m owner _ kind name) fun x n hn => ?_
  obtain ⟨rfl, rfl⟩ | ⟨rfl, -⟩ | ⟨-, hn⟩ := appendChild_cases hp hn
  · refine .inr ⟨hkind.1, fun o ho => ⟨?_, hkind.2⟩⟩
    obtain rfl := Option.some.inj ho
    exact lt_of_node? hp
  · exact .inl ⟨p, hp⟩
  · exact .inl ⟨n, hn⟩

/-- The facets of a new member are in different roles, and no older node is owned by it. -/
theorem appendMember (h : Nested m) (library : LibraryId) {kind : NodeKind}
    (hkind : kind.isMember = true) (name : String) :
    Nested (m.appendMember library kind name).2 := by
  have htop := (furnished_appendMember m library kind name).top
  have hsize : (m.withMember library kind name).nodes.size = m.nodes.size + 1 := pushed_size ..
  have hroot {n : Node}
      (hn : (m.appendMember library kind name).2.node? m.nextId = some n) :
      n.owner = none ∧ n.kind = kind := by
    obtain rfl := Option.some.inj (htop.symm.trans hn)
    exact ⟨rfl, rfl⟩
  have hold {id : NodeId} {n : Node} (hn : m.node? id = some n) : n.owner ≠ some m.nextId :=
    fun ho => Nat.lt_asymm (h.older hn ho) (lt_of_node? hn)
  constructor
  case older =>
    intro id n o hn ho
    obtain rfl | ⟨j, role, -, rfl, rfl⟩ | hn := appendMember_cases hn
    · cases (hroot hn).1.symm.trans ho
    · obtain rfl := Option.some.inj ho
      show m.nodes.size < (m.withMember library kind name).nodes.size + j
      omega
    · exact h.older hn ho
  case inner =>
    intro id n o hn ho
    obtain rfl | ⟨j, role, -, rfl, rfl⟩ | hn := appendMember_cases hn
    · cases (hroot hn).1.symm.trans ho
    · rfl
    · exact h.inner hn ho
  case single =>
    intro x y n k hn hk hfacet hsame howner
    have other {z : NodeId} {n : Node}
        (hz : (m.appendMember library kind name).2.node? z = some n)
        (hfacet : n.kind.isFacet = true) : z ≠ m.nextId := by
      rintro rfl
      rw [(hroot hz).2, NodeKind.isFacet_of_isMember hkind] at hfacet
      cases hfacet
    have hx := (appendMember_cases hn).resolve_left (other hn hfacet)
    have hy := (appendMember_cases hk).resolve_left (other hk (hsame ▸ hfacet))
    obtain ⟨i, role, hi, rfl, rfl⟩ | hx := hx <;> obtain ⟨j, role', hj, rfl, rfl⟩ | hy := hy
    · -- No role comes twice, so the two are at the same position.
      obtain rfl := NodeKind.facet.inj hsame
      obtain rfl := (List.getElem?_inj (List.getElem?_eq_some_iff.mp hi).1
        (nodup_standardFacets kind)).mp (hi.trans hj.symm)
      rfl
    · exact absurd howner (hold hy)
    · exact absurd howner.symm (hold hx)
    · exact h.single hx hy hfacet hsame howner

theorem without (h : Nested m) (id : NodeId) (n : Node) : Nested (m.without id n) := by
  refine h.of_extends (.without m id n) fun x k hk => .inl ?_
  obtain ⟨k', hk', -⟩ := without_cases hk
  exact ⟨k', hk'⟩

end Nested

end Model

end SchemaEditor
