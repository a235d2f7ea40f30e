import SchemaEditor.Model.Walk

/-!
# Looking up nodes after an operation

What `node?` gives after each of the elementary changes of a model. Every later statement about an
operation is read off these equations; none of them opens the arena again.

`Extends` says that a model keeps every node of another one, with its kind, owner and library.
All operations extend the model they change: an id stands for the same element for ever.
-/

namespace SchemaEditor.Model

variable {m m' m'' : Model}

/-! ### Nodes that exist -/

theorem node?_eq_some_iff_lt {id : NodeId} :
    (∃ n, m.node? id = some n) ↔ id.index < m.nodes.size := by
  constructor
  · rintro ⟨n, hn⟩
    exact (Array.getElem?_eq_some_iff.mp hn).1
  · intro h
    exact ⟨m.nodes[id.index], Array.getElem?_eq_some_iff.mpr ⟨h, rfl⟩⟩

theorem lt_of_node? {id : NodeId} {n : Node} (h : m.node? id = some n) :
    id.index < m.nodes.size :=
  node?_eq_some_iff_lt.mp ⟨n, h⟩

theorem exists_node? {id : NodeId} (h : id.index < m.nodes.size) :
    ∃ n, m.node? id = some n :=
  node?_eq_some_iff_lt.mpr h

theorem node?_eq_none_iff {id : NodeId} : m.node? id = none ↔ m.nodes.size ≤ id.index := by
  simp [node?]

theorem node_eq_ok_iff {id : NodeId} {n : Node} : m.node id = .ok n ↔ m.node? id = some n := by
  unfold node
  cases m.node? id <;> simp

theorem node_of_node? {id : NodeId} {n : Node} (h : m.node? id = some n) : m.node id = .ok n :=
  node_eq_ok_iff.mpr h

theorem node_of_none {id : NodeId} (h : m.node? id = none) :
    m.node id = .error (.unknownNode id) := by
  simp [node, h]

theorem mem_nodeIds {id : NodeId} : id ∈ m.nodeIds ↔ id.index < m.nodes.size := by
  simp only [nodeIds, List.mem_map, List.mem_range]
  constructor
  · rintro ⟨i, hi, rfl⟩
    exact hi
  · intro h
    exact ⟨id.index, h, rfl⟩

theorem library_eq_ok_iff {id : LibraryId} {l : Library} :
    m.library id = .ok l ↔ m.library? id = some l := by
  unfold library
  cases m.library? id <;> simp

/-! ### Changes of one node or library -/

@[simp] theorem modifyNode_size (m : Model) (id : NodeId) (f : Node → Node) :
    (m.modifyNode id f).nodes.size = m.nodes.size := by
  simp [modifyNode]

@[simp] theorem modifyNode_libraries (m : Model) (id : NodeId) (f : Node → Node) :
    (m.modifyNode id f).libraries = m.libraries := rfl

@[simp] theorem modifyNode_library? (m : Model) (id : NodeId) (f : Node → Node) (l : LibraryId) :
    (m.modifyNode id f).library? l = m.library? l := rfl

theorem node?_modifyNode (m : Model) (id x : NodeId) (f : Node → Node) :
    (m.modifyNode id f).node? x = if x = id then (m.node? x).map f else m.node? x := by
  obtain ⟨i⟩ := id
  obtain ⟨j⟩ := x
  simp only [node?, modifyNode, Array.getElem?_modify, NodeId.mk.injEq]
  by_cases h : j = i
  · rw [if_pos h, if_pos h.symm]
  · rw [if_neg h, if_neg (Ne.symm h)]

theorem node?_modifyNode_self (m : Model) (id : NodeId) (f : Node → Node) :
    (m.modifyNode id f).node? id = (m.node? id).map f := by
  rw [node?_modifyNode, if_pos rfl]

/-- A change that leaves its node alone changes nothing. -/
theorem modifyNode_of_fixed {id : NodeId} {n : Node} {f : Node → Node}
    (hn : m.node? id = some n) (hf : f n = n) : m.modifyNode id f = m := by
  have hnodes : m.nodes.modify id.index f = m.nodes := by
    refine Array.ext_getElem? fun i => ?_
    rw [Array.getElem?_modify]
    split
    · next hi =>
      subst hi
      rw [show m.nodes[id.index]? = some n from hn, Option.map_some, hf]
    · rfl
  rw [modifyNode, hnodes]

/-- A node is the one that was changed, or as it was. -/
theorem modifyNode_cases {id x : NodeId} {f : Node → Node} {n : Node}
    (hn : (m.modifyNode id f).node? x = some n) :
    (∃ k, x = id ∧ m.node? x = some k ∧ n = f k) ∨ (x ≠ id ∧ m.node? x = some n) := by
  rw [node?_modifyNode] at hn
  split at hn
  · next hx =>
    obtain ⟨k, hk, rfl⟩ := Option.map_eq_some_iff.mp hn
    exact .inl ⟨k, hx, hk, rfl⟩
  · next hx => exact .inr ⟨hx, hn⟩

@[simp] theorem node?_modifyLibrary (m : Model) (id : LibraryId) (f : Library → Library)
    (x : NodeId) : (m.modifyLibrary id f).node? x = m.node? x := rfl

theorem library?_modifyLibrary (m : Model) (id x : LibraryId) (f : Library → Library) :
    (m.modifyLibrary id f).library? x = if x = id then (m.library? x).map f else m.library? x := by
  obtain ⟨i⟩ := id
  obtain ⟨j⟩ := x
  simp only [library?, modifyLibrary, Array.getElem?_modify, LibraryId.mk.injEq]
  by_cases h : j = i
  · rw [if_pos h, if_pos h.symm]
  · rw [if_neg h, if_neg (Ne.symm h)]

theorem update_eq_ok_iff {id : NodeId} {f : Node → Node} :
    m.update id f = .ok m' ↔ (∃ n, m.node? id = some n) ∧ m' = m.modifyNode id f := by
  unfold update
  cases m.node? id with
  | none => simp
  | some n => simp [eq_comm]

theorem update_of_node? {id : NodeId} {n : Node} (h : m.node? id = some n) (f : Node → Node) :
    m.update id f = .ok (m.modifyNode id f) :=
  update_eq_ok_iff.mpr ⟨⟨n, h⟩, rfl⟩

/-! ### New nodes -/

/-- The model with a node at the end of the arena that nothing lists yet. -/
def pushed (m : Model) (n : Node) : Model := { m with nodes := m.nodes.push n }

/-- The id of the next node. -/
def nextId (m : Model) : NodeId := ⟨m.nodes.size⟩

@[simp] theorem pushed_size (m : Model) (n : Node) :
    (m.pushed n).nodes.size = m.nodes.size + 1 := by
  simp [pushed]

@[simp] theorem pushed_libraries (m : Model) (n : Node) :
    (m.pushed n).libraries = m.libraries := rfl

theorem node?_pushed (m : Model) (n : Node) (x : NodeId) :
    (m.pushed n).node? x = if x = m.nextId then some n else m.node? x := by
  cases x
  simp only [node?, pushed, nextId, Array.getElem?_push, NodeId.mk.injEq]

theorem ne_nextId {id : NodeId} {n : Node} (h : m.node? id = some n) : id ≠ m.nextId := by
  rintro rfl
  exact Nat.lt_irrefl _ (lt_of_node? h)

@[simp] theorem node?_nextId (m : Model) : m.node? m.nextId = none :=
  node?_eq_none_iff.mpr (Nat.le_refl _)

theorem appendChild_snd (m : Model) (owner : NodeId) (library : LibraryId) (kind : NodeKind)
    (name : String) :
    (m.appendChild owner library kind name).2 =
      (m.pushed (.fresh kind library (some owner) name)).modifyNode owner fun n =>
        { n with children := n.children ++ [m.nextId] } := rfl

@[simp] theorem appendChild_libraries (m : Model) (owner : NodeId) (library : LibraryId)
    (kind : NodeKind) (name : String) :
    (m.appendChild owner library kind name).2.libraries = m.libraries := rfl

theorem node?_appendChild {owner : NodeId} {p : Node} (h : m.node? owner = some p)
    (library : LibraryId) (kind : NodeKind) (name : String) (x : NodeId) :
    (m.appendChild owner library kind name).2.node? x =
      if x = m.nextId then some (.fresh kind library (some owner) name)
      else if x = owner then some { p with children := p.children ++ [m.nextId] }
      else m.node? x := by
  rw [appendChild_snd, node?_modifyNode, node?_pushed]
  by_cases hx : x = owner
  · subst hx
    simp [ne_nextId h, h]
  · simp [hx]

theorem node?_appendChild_owner {owner : NodeId} {p : Node} (h : m.node? owner = some p)
    (library : LibraryId) (kind : NodeKind) (name : String) :
    (m.appendChild owner library kind name).2.node? owner =
      some { p with children := p.children ++ [m.nextId] } := by
  rw [node?_appendChild h, if_neg (ne_nextId h), if_pos rfl]

theorem node?_appendChild_of_ne {owner x : NodeId} {p n : Node} (h : m.node? owner = some p)
    (hx : m.node? x = some n) (hne : x ≠ owner) (library : LibraryId) (kind : NodeKind)
    (name : String) : (m.appendChild owner library kind name).2.node? x = some n := by
  rw [node?_appendChild h, if_neg (ne_nextId hx), if_neg hne, hx]

/-- A node is the new child, the owner with one more child, or as it was. -/
theorem appendChild_cases {owner x : NodeId} {p n : Node} {library : LibraryId}
    {kind : NodeKind} {name : String} (h : m.node? owner = some p)
    (hn : (m.appendChild owner library kind name).2.node? x = some n) :
    (x = m.nextId ∧ n = .fresh kind library (some owner) name) ∨
      (x = owner ∧ n = { p with children := p.children ++ [m.nextId] }) ∨
      (x ≠ owner ∧ m.node? x = some n) := by
  rw [node?_appendChild h] at hn
  split at hn
  · exact .inl ⟨‹_›, (Option.some.inj hn).symm⟩
  · split at hn
    · exact .inr (.inl ⟨‹_›, (Option.some.inj hn).symm⟩)
    · exact .inr (.inr ⟨‹_›, hn⟩)

/-- Every node stays, at most with one more child. -/
theorem exists_node?_appendChild {owner x : NodeId} {p n : Node} (h : m.node? owner = some p)
    (hx : m.node? x = some n) (library : LibraryId) (kind : NodeKind) (name : String) :
    ∃ cs, n.children <+: cs ∧
      (m.appendChild owner library kind name).2.node? x = some { n with children := cs } := by
  by_cases hne : x = owner
  · subst hne
    obtain rfl := Option.some.inj (h.symm.trans hx)
    exact ⟨_, List.prefix_append _ _, node?_appendChild_owner h library kind name⟩
  · exact ⟨n.children, List.prefix_refl _, node?_appendChild_of_ne h hx hne library kind name⟩

theorem addChild_eq_ok_iff {owner id : NodeId} {kind : NodeKind} {name : String} :
    m.addChild owner kind name = .ok (id, m') ↔
      ∃ p, m.node? owner = some p ∧ p.attached = true ∧
        (id, m') = m.appendChild owner p.library kind name := by
  unfold addChild
  cases h : m.node? owner with
  | none => simp [node_of_none h, bind, Except.bind]
  | some p =>
    cases ha : p.attached <;>
      simp [node_of_node? h, ha, bind, Except.bind, pure, Except.pure, throw, throwThe,
        MonadExceptOf.throw]
    exact eq_comm

theorem addChild_of_attached {owner : NodeId} {p : Node} (h : m.node? owner = some p)
    (ha : p.attached = true) (kind : NodeKind) (name : String) :
    m.addChild owner kind name = .ok (m.appendChild owner p.library kind name) :=
  addChild_eq_ok_iff.mpr ⟨p, h, ha, rfl⟩

theorem addMember_eq_ok_iff {library : LibraryId} {id : NodeId} {kind : NodeKind} {name : String} :
    m.addMember library kind name = .ok (id, m') ↔
      kind.isMember = true ∧ (∃ l, m.library? library = some l) ∧
        (id, m') = m.appendMember library kind name := by
  unfold addMember
  cases hk : kind.isMember with
  | false => simp [bind, Except.bind, throw, throwThe, MonadExceptOf.throw]
  | true =>
    cases h : m.library? library <;>
      simp [Model.library, h, bind, Except.bind, pure, Except.pure, eq_comm]

/-! ### Models that extend a model -/

/-- Every node is still there, with the kind, owner and library it had. -/
structure Extends (m m' : Model) : Prop where
  size_le : m.nodes.size ≤ m'.nodes.size
  same : ∀ {id n}, m.node? id = some n →
    ∃ n', m'.node? id = some n' ∧ n'.kind = n.kind ∧ n'.owner = n.owner ∧ n'.library = n.library

namespace Extends

theorem refl (m : Model) : Extends m m :=
  ⟨Nat.le_refl _, fun h => ⟨_, h, rfl, rfl, rfl⟩⟩

theorem trans (h : Extends m m') (h' : Extends m' m'') : Extends m m'' := by
  refine ⟨Nat.le_trans h.size_le h'.size_le, fun hn => ?_⟩
  obtain ⟨n', hn', hk', ho', hl'⟩ := h.same hn
  obtain ⟨n'', hn'', hk'', ho'', hl''⟩ := h'.same hn'
  exact ⟨n'', hn'', hk''.trans hk', ho''.trans ho', hl''.trans hl'⟩

theorem of_nodes (h : m'.nodes = m.nodes) : Extends m m' := by
  refine ⟨Nat.le_of_eq (by rw [h]), fun hn => ⟨_, ?_, rfl, rfl, rfl⟩⟩
  rwa [node?, h]

theorem modifyNode (m : Model) (id : NodeId) {f : Node → Node}
    (hf : ∀ n, (f n).kind = n.kind ∧ (f n).owner = n.owner ∧ (f n).library = n.library) :
    Extends m (m.modifyNode id f) := by
  refine ⟨by simp, fun {x n} hn => ?_⟩
  rw [node?_modifyNode, hn]
  by_cases hx : x = id
  · rw [if_pos hx]
    exact ⟨f n, rfl, hf n⟩
  · rw [if_neg hx]
    exact ⟨n, rfl, rfl, rfl, rfl⟩

theorem pushed (m : Model) (n : Node) : Extends m (m.pushed n) := by
  refine ⟨by simp, fun hx => ⟨_, ?_, rfl, rfl, rfl⟩⟩
  rw [node?_pushed, if_neg (ne_nextId hx), hx]

theorem appendChild (m : Model) (owner : NodeId) (library : LibraryId) (kind : NodeKind)
    (name : String) : Extends m (m.appendChild owner library kind name).2 :=
  (pushed m _).trans (modifyNode _ _ fun _ => ⟨rfl, rfl, rfl⟩)

theorem appendMember (m : Model) (library : LibraryId) (kind : NodeKind) (name : String) :
    Extends m (m.appendMember library kind name).2 := by
  have facets (id : NodeId) (roles : List FacetRole) (m : Model) :
      Extends m (roles.foldl
        (fun m role => (m.appendChild id library (.facet role) "").2) m) := by
    induction roles generalizing m with
    | nil => exact refl m
    | cons role roles ih => exact (appendChild m id library _ _).trans (ih _)
  refine ((pushed m (.fresh kind library none name)).trans (of_nodes ?_)).trans (facets _ _ _)
  rfl

end Extends

end SchemaEditor.Model
