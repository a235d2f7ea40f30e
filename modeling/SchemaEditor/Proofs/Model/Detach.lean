import SchemaEditor.Proofs.Model.Preorder

/-!
# Detaching

What `detach` does to each node of a forest: the nodes below lose their mark, the owner of the
topmost one loses a child, and nothing else changes. The outcome is a forest again: an attached
node that is left has an owner that is left, and no list that is left holds a detached node.
-/

namespace SchemaEditor

/-- What becomes of the node `x` when `id`, which is listed by `owner?`, is detached with all that
is `below` it. -/
def Node.cut (below : List NodeId) (owner? : Option NodeId) (id x : NodeId) (n : Node) : Node :=
  { n with
    children := if owner? = some x then n.children.filter (· ≠ id) else n.children
    attached := n.attached && x ∉ below }

@[simp] theorem Node.attached_cut {below : List NodeId} {owner? : Option NodeId} {id x : NodeId}
    {n : Node} : (n.cut below owner? id x).attached = true ↔ n.attached = true ∧ x ∉ below := by
  simp [cut]

namespace Model

variable {m m' : Model} {id x : NodeId} {n k : Node}

/-- The model has an attached node with this id. -/
def IsAttached (m : Model) (x : NodeId) : Prop := ∃ n, m.node? x = some n ∧ n.attached = true

/-- The model in which a node is detached with all that is below it. -/
def without (m : Model) (id : NodeId) (n : Node) : Model :=
  (m.unlink id n).markDetached (m.preorder id)

theorem node?_unlink (m : Model) (id : NodeId) (n : Node) (x : NodeId) :
    (m.unlink id n).node? x = (m.node? x).map fun k =>
      { k with
        children := if n.owner = some x then k.children.filter (· ≠ id) else k.children } := by
  unfold unlink
  cases ho : n.owner with
  | none => simp
  | some o =>
    simp only [node?_modifyNode]
    by_cases hx : x = o
    · simp [hx]
    · simp [hx, Ne.symm hx]

theorem node?_markDetached (m : Model) (ids : List NodeId) (x : NodeId) :
    (m.markDetached ids).node? x =
      (m.node? x).map fun k => { k with attached := k.attached && x ∉ ids } := by
  unfold markDetached
  induction ids generalizing m with
  | nil => simp
  | cons id ids ih =>
    rw [List.foldl_cons, ih, node?_modifyNode]
    by_cases hx : x = id
    · subst hx
      rw [if_pos rfl, Option.map_map]
      congr 1
      funext k
      simp
    · simp [hx]

theorem node?_without (m : Model) (id : NodeId) (n : Node) (x : NodeId) :
    (m.without id n).node? x = (m.node? x).map (.cut (m.preorder id) n.owner id x) := by
  rw [without, node?_markDetached, node?_unlink, Option.map_map]
  rfl

/-- A node that is left was there before. -/
theorem without_cases (hk : (m.without id n).node? x = some k) :
    ∃ k', m.node? x = some k' ∧ k = k'.cut (m.preorder id) n.owner id x := by
  rw [node?_without] at hk
  obtain ⟨k', hk', rfl⟩ := Option.map_eq_some_iff.mp hk
  exact ⟨k', hk', rfl⟩

theorem node?_without_of_node? (hk : m.node? x = some k) (id : NodeId) (n : Node) :
    (m.without id n).node? x = some (k.cut (m.preorder id) n.owner id x) := by
  rw [node?_without, hk, Option.map_some]

@[simp] theorem markDetached_libraries (m : Model) (ids : List NodeId) :
    (m.markDetached ids).libraries = m.libraries := by
  unfold markDetached
  induction ids generalizing m with
  | nil => rfl
  | cons id ids ih => rw [List.foldl_cons, ih, modifyNode_libraries]

/-- Only a node without owner is taken out of a library. -/
theorem without_libraries (ho : n.owner ≠ none) : (m.without id n).libraries = m.libraries := by
  rw [without, markDetached_libraries, unlink]
  cases h : n.owner with
  | none => exact absurd h ho
  | some o => rfl

theorem size_of_node?_map {g : NodeId → Node → Node}
    (hm : ∀ x, m'.node? x = (m.node? x).map (g x)) : m'.nodes.size = m.nodes.size := by
  have iff (i : Nat) : i < m'.nodes.size ↔ i < m.nodes.size := by
    rw [← @node?_eq_some_iff_lt m' ⟨i⟩, ← @node?_eq_some_iff_lt m ⟨i⟩, hm ⟨i⟩]
    simp
  have h1 := iff m.nodes.size
  have h2 := iff m'.nodes.size
  omega

namespace Extends

theorem of_node?_map {g : NodeId → Node → Node}
    (hg : ∀ x n, (g x n).kind = n.kind ∧ (g x n).owner = n.owner ∧ (g x n).library = n.library)
    (hm : ∀ x, m'.node? x = (m.node? x).map (g x)) : Extends m m' :=
  ⟨Nat.le_of_eq (size_of_node?_map hm).symm,
    fun {x n} hn => ⟨g x n, by rw [hm x, hn, Option.map_some], hg x n⟩⟩

theorem without (m : Model) (id : NodeId) (n : Node) : Extends m (m.without id n) :=
  of_node?_map (g := .cut (m.preorder id) n.owner id) (fun _ _ => ⟨rfl, rfl, rfl⟩)
    (node?_without m id n)

end Extends

namespace Forest

/-- Detaching an attached node succeeds and gives the nodes below it. -/
theorem detach_eq (h : Forest m) (hn : m.node? id = some n) (ha : n.attached = true) :
    m.detach id = .ok (m.preorder id, m.without id n) := by
  -- The walk is made after unlinking, which only touches the owner, and that lies before.
  have hwalk : (m.unlink id n).subtree id = m.subtree id := by
    have hsize := size_of_node?_map (node?_unlink m id n)
    rw [subtree, subtree, hsize]
    refine preorderFrom_congr h (k := id.index) (by simp) fun x hx => ?_
    rw [node?_unlink]
    have hne : n.owner ≠ some x := fun ho => Nat.not_lt.mpr hx (h.owner_lt hn ho)
    simp [hne]
  rw [h.subtree_eq hn] at hwalk
  simp only [Model.detach, node_of_node? hn, bind, Except.bind, ha, hwalk]
  rfl

theorem detach_eq_ok_iff (h : Forest m) {ids : List NodeId} :
    m.detach id = .ok (ids, m') ↔ ∃ n, m.node? id = some n ∧ n.attached = true ∧
      ids = m.preorder id ∧ m' = m.without id n := by
  constructor
  · intro hd
    cases hn : m.node? id with
    | none => simp [Model.detach, node_of_none hn, bind, Except.bind] at hd
    | some n =>
      cases ha : n.attached with
      | false =>
        simp [Model.detach, node_of_node? hn, ha, bind, Except.bind, throw, throwThe,
          MonadExceptOf.throw] at hd
      | true =>
        rw [h.detach_eq hn ha] at hd
        obtain ⟨rfl, rfl⟩ := Prod.mk.inj (Except.ok.inj hd)
        exact ⟨n, rfl, ha, rfl, rfl⟩
  · rintro ⟨n, hn, ha, rfl, rfl⟩
    exact h.detach_eq hn ha

/-- What is left after detaching is a forest. -/
theorem without (h : Forest m) (hn : m.node? id = some n) : Forest (m.without id n) := by
  have hid := h.mem_preorder_self hn
  constructor
  case owner_lt =>
    intro x k' o hk' ho
    obtain ⟨k, hk, rfl⟩ := without_cases hk'
    exact h.owner_lt hk ho
  case root_kind =>
    intro x k' hk' ho
    obtain ⟨k, hk, rfl⟩ := without_cases hk'
    exact h.root_kind (n := k) hk ho
  case same_library =>
    intro x k' o p' hk' ho hp'
    obtain ⟨k, hk, rfl⟩ := without_cases hk'
    obtain ⟨p, hp, rfl⟩ := without_cases hp'
    exact h.same_library (n := k) (p := p) hk ho hp
  case listed =>
    intro x k' o hk' hka ho
    obtain ⟨k, hk, rfl⟩ := without_cases hk'
    obtain ⟨hka, hx⟩ := Node.attached_cut.mp hka
    obtain ⟨p, hp, hpa, hmem⟩ := h.listed hk hka ho
    have ho' : o ∉ m.preorder id := fun hmo => hx (h.mem_preorder_of_child hn hmo hp hmem)
    have hne : x ≠ id := fun he => hx (he ▸ hid)
    refine ⟨_, node?_without_of_node? hp id n, Node.attached_cut.mpr ⟨hpa, ho'⟩, ?_⟩
    simp only [Node.cut]
    split
    · exact List.mem_filter.mpr ⟨hmem, by simpa using hne⟩
    · exact hmem
  case owned =>
    intro x k' c hk' hc
    obtain ⟨k, hk, rfl⟩ := without_cases hk'
    have hcm : c ∈ k.children ∧ (n.owner = some x → c ≠ id) := by
      simp only [Node.cut] at hc
      split at hc
      · exact ⟨(List.mem_filter.mp hc).1, fun _ => by simpa using (List.mem_filter.mp hc).2⟩
      · exact ⟨hc, fun ho => absurd ho ‹_›⟩
    obtain ⟨q, hq, hqo, hqa⟩ := h.owned hk hcm.1
    refine ⟨_, node?_without_of_node? hq id n, hqo, fun hka => ?_⟩
    obtain ⟨hka, hx⟩ := Node.attached_cut.mp hka
    -- A child below `id` is `id` itself, which was struck off the list, or its owner is below too.
    have hnot : c ∉ m.preorder id := by
      intro hcb
      cases (h.under_of_mem_preorder hn hcb).1 with
      | self =>
        obtain rfl := Option.some.inj (hn.symm.trans hq)
        exact hcm.2 hqo rfl
      | owned hn' ho' hu =>
        obtain rfl := Option.some.inj (hq.symm.trans hn')
        obtain rfl := Option.some.inj (hqo.symm.trans ho')
        exact hx (h.mem_preorder_of_under hu hk hka)
    exact Node.attached_cut.mpr ⟨hqa hka, hnot⟩
  case nodup =>
    intro x k' hk'
    obtain ⟨k, hk, rfl⟩ := without_cases hk'
    simp only [Node.cut]
    split
    · exact (h.nodup hk).filter _
    · exact h.nodup hk

end Forest

end Model

end SchemaEditor
