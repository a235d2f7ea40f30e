import SchemaEditor.Proofs.Model.Shelf

/-!
# New members with their facets

A new member comes at the end of the arena, with its standard facets behind it in the order of their
roles. So the facet of a new member in a role is known by its position.
-/

namespace SchemaEditor.Model

variable {m m' : Model} {member : NodeId} {p n : Node} {roles : List FacetRole} {role : FacetRole}

/-- Facets were added to a member, in order, at the end of the arena and of its children; other
nodes are as they were. -/
structure Furnished (m : Model) (member : NodeId) (p : Node) (roles : List FacetRole)
    (m' : Model) : Prop where
  libraries : m'.libraries = m.libraries
  size : m'.nodes.size = m.nodes.size + roles.length
  top : m'.node? member = some { p with
    children := p.children ++ (List.range' m.nodes.size roles.length).map NodeId.mk }
  facet : ∀ {j role}, roles[j]? = some role → m'.node? ⟨m.nodes.size + j⟩ =
    some (.fresh (.facet role) p.library (some member) "")
  other : ∀ {x n}, x ≠ member → m.node? x = some n → m'.node? x = some n

theorem furnished (hp : m.node? member = some p) (roles : List FacetRole) :
    Furnished m member p roles (roles.foldl
      (fun m role => (m.appendChild member p.library (.facet role) "").2) m) := by
  induction roles generalizing m p with
  | nil => exact ⟨rfl, rfl, by simpa using hp, by simp, fun _ hx => hx⟩
  | cons role roles ih =>
    have hown := node?_appendChild_owner hp p.library (.facet role) ""
    have hsize : (m.appendChild member p.library (.facet role) "").2.nodes.size =
        m.nodes.size + 1 := by
      simp [appendChild_snd]
    have h := ih hown
    rw [List.foldl_cons]
    constructor
    case libraries => exact h.libraries
    case size =>
      rw [h.size, hsize, List.length_cons]
      omega
    case top =>
      rw [h.top, hsize]
      simp [List.range'_succ, nextId]
    case facet =>
      intro j role' hj
      cases j with
      | zero =>
        obtain rfl := Option.some.inj hj
        apply h.other (ne_nextId hp).symm
        exact (node?_appendChild hp ..).trans (if_pos rfl)
      | succ j =>
        have := h.facet hj
        rwa [hsize, Nat.add_assoc, Nat.add_comm 1] at this
    case other =>
      intro x n hx hn
      exact h.other hx (node?_appendChild_of_ne hp hn hx ..)

/-- A new member has exactly its standard facets. -/
theorem furnished_appendMember (m : Model) (library : LibraryId) (kind : NodeKind)
    (name : String) :
    Furnished (m.withMember library kind name) m.nextId (.fresh kind library none name)
      kind.standardFacets (m.appendMember library kind name).2 :=
  furnished ((node?_withMember m library kind name m.nextId).trans (if_pos rfl)) _

namespace Furnished

/-- Each node is the member, a facet of it at the position of its role, or as it was. -/
theorem cases (h : Furnished m member p roles m') {x : NodeId} (hx : m'.node? x = some n) :
    x = member ∨
      (∃ j role, roles[j]? = some role ∧ x = ⟨m.nodes.size + j⟩ ∧
        n = .fresh (.facet role) p.library (some member) "") ∨
      m.node? x = some n := by
  by_cases hm : x = member
  · exact .inl hm
  · refine .inr ?_
    by_cases hold : x.index < m.nodes.size
    · obtain ⟨k, hk⟩ := exists_node? hold
      exact .inr (Option.some.inj ((h.other hm hk).symm.trans hx) ▸ hk)
    · have hlt := lt_of_node? hx
      rw [h.size] at hlt
      obtain ⟨j, hj⟩ := Nat.exists_eq_add_of_le (Nat.le_of_not_lt hold)
      have hrole := List.getElem?_eq_getElem (l := roles) (i := j) (by omega)
      have hfacet := h.facet hrole
      rw [← hj] at hfacet
      exact .inl ⟨j, _, hrole, congrArg NodeId.mk hj, Option.some.inj (hx.symm.trans hfacet)⟩

/-- The facet of the member in a role is at the position of the role. -/
theorem facet?_eq (h : Furnished m member p roles m') (hchildren : p.children = [])
    (hnodup : roles.Nodup) {j : Nat} (hj : roles[j]? = some role) :
    m'.facet? member role = some ⟨m.nodes.size + j⟩ := by
  have hj' : j < roles.length := (List.getElem?_eq_some_iff.mp hj).1
  rw [facet?, h.top, Option.bind_some, hchildren, List.nil_append]
  have hsome : (((List.range' m.nodes.size roles.length).map NodeId.mk).find? fun c =>
      (m'.node? c).any fun child => child.kind = .facet role).isSome = true := by
    rw [List.find?_isSome]
    refine ⟨⟨m.nodes.size + j⟩, ?_, by simp [h.facet hj, Node.fresh]⟩
    exact List.mem_map.mpr ⟨_, List.mem_range'_1.mpr ⟨by omega, by omega⟩, rfl⟩
  obtain ⟨c, hc⟩ := Option.isSome_iff_exists.mp hsome
  rw [hc]
  obtain ⟨i, hi, rfl⟩ := List.mem_map.mp (List.mem_of_find?_eq_some hc)
  obtain ⟨hle, hlt⟩ := List.mem_range'_1.mp hi
  -- The child that is found has the role too, and no role comes twice.
  have hrole := List.getElem?_eq_getElem (l := roles) (i := i - m.nodes.size) (by omega)
  have hfacet := h.facet hrole
  rw [Nat.add_sub_cancel' hle] at hfacet
  have hkind := List.find?_some hc
  simp only [hfacet, Option.any_some, Node.fresh, decide_eq_true_eq, NodeKind.facet.injEq] at hkind
  have := hnodup.getElem_inj_iff.mp ((List.getElem?_eq_some_iff.mp hj).2.trans hkind.symm)
  rw [this, Nat.add_sub_cancel' hle]

/-- The member has no other facets. -/
theorem facet?_eq_none (h : Furnished m member p roles m') (hchildren : p.children = [])
    (hrole : role ∉ roles) : m'.facet? member role = none := by
  rw [facet?, h.top, Option.bind_some, hchildren, List.nil_append, List.find?_eq_none]
  intro c hc
  obtain ⟨i, hi, rfl⟩ := List.mem_map.mp hc
  obtain ⟨hle, hlt⟩ := List.mem_range'_1.mp hi
  obtain ⟨j, rfl⟩ := Nat.exists_eq_add_of_le hle
  have hj := List.getElem?_eq_getElem (l := roles) (i := j) (by omega)
  simp only [h.facet hj, Option.any_some, Node.fresh, decide_eq_true_eq, NodeKind.facet.injEq]
  rintro rfl
  exact hrole (List.mem_of_getElem? hj)

end Furnished

/-- After a member was added, each node is the member, a facet of it at the position of its role, or
as it was. -/
theorem appendMember_cases {library : LibraryId} {kind : NodeKind} {name : String} {x : NodeId}
    (hx : (m.appendMember library kind name).2.node? x = some n) :
    x = m.nextId ∨
      (∃ j role, kind.standardFacets[j]? = some role ∧
        x = ⟨(m.withMember library kind name).nodes.size + j⟩ ∧
        n = .fresh (.facet role) library (some m.nextId) "") ∨
      m.node? x = some n := by
  obtain hm | hfacet | hold := (furnished_appendMember m library kind name).cases hx
  · exact .inl hm
  · exact .inr (.inl hfacet)
  · rw [node?_withMember] at hold
    split at hold
    · exact .inl ‹_›
    · exact .inr (.inr hold)

theorem node?_appendMember_of_node? {x : NodeId} (hx : m.node? x = some n) (library : LibraryId)
    (kind : NodeKind) (name : String) :
    (m.appendMember library kind name).2.node? x = some n := by
  refine (furnished_appendMember m library kind name).other (ne_nextId hx) ?_
  rw [node?_withMember, if_neg (ne_nextId hx), hx]

/-- Which facet a member has in a role depends on the places of nodes only. -/
theorem facet?_modifyNode (m : Model) (id : NodeId) {f : Node → Node}
    (hf : ∀ n : Node, n.SamePlace (f n)) (member : NodeId) (role : FacetRole) :
    (m.modifyNode id f).facet? member role = m.facet? member role := by
  have hkind (c : NodeId) : ((m.modifyNode id f).node? c).any (·.kind = .facet role) =
      (m.node? c).any (·.kind = .facet role) := by
    rw [node?_modifyNode]
    split
    · cases m.node? c with
      | none => rfl
      | some n => simp [(hf n).kind]
    · rfl
  simp only [facet?, hkind]
  rw [node?_modifyNode]
  split
  · cases m.node? member with
    | none => rfl
    | some n => simp [(hf n).children]
  · rfl

/-- A new child that is no facet changes no facet of a member. -/
theorem facet?_appendChild {owner : NodeId} (hp : m.node? owner = some p) {kind : NodeKind}
    (hkind : kind.isFacet = false) (name : String) (member : NodeId) (role : FacetRole) :
    (m.appendChild owner p.library kind name).2.facet? member role = m.facet? member role := by
  have hother : kind ≠ .facet role := by
    rintro rfl
    cases hkind
  have hsame (c : NodeId) :
      ((m.appendChild owner p.library kind name).2.node? c).any (·.kind = .facet role) =
        (m.node? c).any (·.kind = .facet role) := by
    rw [node?_appendChild hp]
    split
    · next hc => simp [hc, Node.fresh, hother]
    · split
      · next hc => simp [hc, hp]
      · rfl
  simp only [facet?, hsame]
  rw [node?_appendChild hp]
  split
  · next hm => simp [hm, Node.fresh]
  · split
    · next hm => simp [hm, hp, List.find?_append]
    · rfl

theorem nodup_standardFacets (kind : NodeKind) : kind.standardFacets.Nodup := by
  cases kind with
  | member kind =>
    cases kind <;> simp [NodeKind.standardFacets, MemberKind.standardFacets]
  | _ => exact List.nodup_nil

end SchemaEditor.Model
