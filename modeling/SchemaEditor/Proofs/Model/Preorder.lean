import Mathlib.Data.List.Nodup
import SchemaEditor.Proofs.Model.Forest

/-!
# Walking down

`preorder` lists a node and what hangs below it by recursion over the children lists. In a forest
it lists no node twice, so it is no longer than the arena, and the walk with a stack yields exactly
this list before its steps run out: `subtree_eq`. Below an attached node it lists exactly the
attached nodes that climb to it: `mem_preorder_iff`. `Listing` is the same list as a relation that
recurses into the children without a look at positions.
-/

namespace SchemaEditor.Model

variable {m m' : Model} {id top x y : NodeId} {n : Node} {row ids : List NodeId}

/-- A node before what hangs below it, the children in order. The recursion follows only children
with a later position, which in a forest are all of them. -/
def preorder (m : Model) (id : NodeId) : List NodeId :=
  match _h : m.node? id with
  | none => []
  | some n => id :: n.children.flatMap fun c =>
      if id.index < c.index then m.preorder c else []
termination_by m.nodes.size - id.index
decreasing_by
  have := lt_of_node? ‹_›
  omega

namespace Forest

theorem preorder_eq (h : Forest m) (hn : m.node? id = some n) :
    m.preorder id = id :: n.children.flatMap m.preorder := by
  rw [preorder]
  split
  · simp_all
  · next n' hn' =>
    obtain rfl := Option.some.inj (hn.symm.trans hn')
    congr 1
    refine List.flatMap_congr fun c hc => ?_
    rw [if_pos (h.child_lt hn hc)]

/-- What holds of a node whenever it holds of its children holds of every node. -/
theorem descend (h : Forest m) {P : NodeId → Prop}
    (step : ∀ id n, m.node? id = some n → (∀ c ∈ n.children, P c) → P id)
    {id : NodeId} {n : Node} (hn : m.node? id = some n) : P id := by
  refine step id n hn fun c hc => ?_
  have hlt := h.child_lt hn hc
  have := lt_of_node? hn
  obtain ⟨k, hk, -⟩ := h.owned hn hc
  exact h.descend step hk
termination_by m.nodes.size - id.index

theorem mem_preorder_self (h : Forest m) (hn : m.node? id = some n) : id ∈ m.preorder id := by
  rw [h.preorder_eq hn]
  exact List.mem_cons_self

/-- Everything in the list climbs back to where the list begins. -/
theorem under_of_mem_preorder (h : Forest m) (hn : m.node? id = some n)
    (hx : x ∈ m.preorder id) : Under m id x ∧ ∃ k, m.node? x = some k := by
  refine h.descend
    (P := fun id => ∀ x ∈ m.preorder id, Under m id x ∧ ∃ k, m.node? x = some k)
    (fun id n hn ih x hx => ?_) hn x hx
  rw [h.preorder_eq hn, List.mem_cons, List.mem_flatMap] at hx
  obtain rfl | ⟨c, hc, hx⟩ := hx
  · exact ⟨.self, n, hn⟩
  · obtain ⟨k, hk, ho, -⟩ := h.owned hn hc
    obtain ⟨hu, hex⟩ := ih c hc x hx
    exact ⟨Under.trans (.owned hk ho .self) hu, hex⟩

theorem mem_preorder_trans (h : Forest m) (hn : m.node? id = some n) (hx : x ∈ m.preorder id)
    (hy : y ∈ m.preorder x) : y ∈ m.preorder id := by
  refine h.descend (P := fun id => x ∈ m.preorder id → y ∈ m.preorder id)
    (fun id n hn ih hx => ?_) hn hx
  rw [h.preorder_eq hn, List.mem_cons, List.mem_flatMap] at hx
  obtain rfl | ⟨c, hc, hx⟩ := hx
  · exact hy
  · rw [h.preorder_eq hn]
    exact List.mem_cons_of_mem _ (List.mem_flatMap.mpr ⟨c, hc, ih c hc hx⟩)

theorem mem_preorder_of_child (h : Forest m) (hn : m.node? id = some n) {k : Node}
    (hx : x ∈ m.preorder id) (hk : m.node? x = some k) {c : NodeId} (hc : c ∈ k.children) :
    c ∈ m.preorder id := by
  refine h.mem_preorder_trans hn hx ?_
  obtain ⟨k', hk', -⟩ := h.owned hk hc
  rw [h.preorder_eq hk]
  exact List.mem_cons_of_mem _ (List.mem_flatMap.mpr ⟨c, hc, h.mem_preorder_self hk'⟩)

/-- Attached nodes are listed by their owners, so each is found from above. -/
theorem mem_preorder_of_under (h : Forest m) (hu : Under m top x) (hx : m.node? x = some n)
    (ha : n.attached = true) : x ∈ m.preorder top := by
  obtain ⟨t, ht⟩ := h.top_exists hu hx
  induction hu generalizing n with
  | self => exact h.mem_preorder_self ht
  | owned hn ho _ ih =>
    obtain rfl := Option.some.inj (hn.symm.trans hx)
    obtain ⟨p, hp, hpa, hmem⟩ := h.listed hx ha ho
    exact h.mem_preorder_of_child ht (ih hp hpa) hp hmem

theorem attached_of_mem_preorder (h : Forest m) (hn : m.node? id = some n)
    (ha : n.attached = true) {k : Node} (hx : x ∈ m.preorder id) (hk : m.node? x = some k) :
    k.attached = true := by
  refine h.descend (P := fun id => ∀ n, m.node? id = some n → n.attached = true →
    x ∈ m.preorder id → k.attached = true) (fun id n hn ih n' hn' ha hx => ?_) hn n hn ha hx
  obtain rfl := Option.some.inj (hn.symm.trans hn')
  rw [h.preorder_eq hn, List.mem_cons, List.mem_flatMap] at hx
  obtain rfl | ⟨c, hc, hx⟩ := hx
  · exact Option.some.inj (hn.symm.trans hk) ▸ ha
  · obtain ⟨q, hq, -, hqa⟩ := h.owned hn hc
    exact ih c hc q hq (hqa ha) hx

/-- Below an attached node, the list has exactly the attached nodes that climb to it. -/
theorem mem_preorder_iff (h : Forest m) (hn : m.node? id = some n) (ha : n.attached = true) :
    x ∈ m.preorder id ↔ Under m id x ∧ ∃ k, m.node? x = some k ∧ k.attached = true := by
  constructor
  · intro hx
    obtain ⟨hu, k, hk⟩ := h.under_of_mem_preorder hn hx
    exact ⟨hu, k, hk, h.attached_of_mem_preorder hn ha hx hk⟩
  · rintro ⟨hu, k, hk, hka⟩
    exact h.mem_preorder_of_under hu hk hka

/-- Two children of one owner have nothing below them in common. -/
theorem disjoint_preorder (h : Forest m) (hn : m.node? id = some n) {c c' : NodeId}
    (hc : c ∈ n.children) (hc' : c' ∈ n.children) (hne : c ≠ c') :
    List.Disjoint (m.preorder c) (m.preorder c') := by
  -- If one child were above the other, it would be above the owner they share.
  have apart {c c' : NodeId} (hc : c ∈ n.children) (hc' : c' ∈ n.children) (hne : c ≠ c') :
      ¬Under m c c' := by
    intro hu
    obtain ⟨k', hk', ho', -⟩ := h.owned hn hc'
    cases hu with
    | self => exact hne rfl
    | owned hq hqo hu =>
      obtain rfl := Option.some.inj (hk'.symm.trans hq)
      obtain rfl := Option.some.inj (ho'.symm.trans hqo)
      exact Nat.not_lt.mpr (h.le_of_under hu) (h.child_lt hn hc)
  intro x hx hx'
  obtain ⟨k, hk, -⟩ := h.owned hn hc
  obtain ⟨k', hk', -⟩ := h.owned hn hc'
  have hu := (h.under_of_mem_preorder hk hx).1
  have hu' := (h.under_of_mem_preorder hk' hx').1
  obtain hcc' | hcc' := hu.total hu'
  · exact apart hc hc' hne hcc'
  · exact apart hc' hc hne.symm hcc'

theorem nodup_preorder (h : Forest m) (hn : m.node? id = some n) : (m.preorder id).Nodup := by
  refine h.descend (P := fun id => (m.preorder id).Nodup) (fun id n hn ih => ?_) hn
  rw [h.preorder_eq hn, List.nodup_cons, List.nodup_flatMap]
  refine ⟨fun hx => ?_, ih, ?_⟩
  · obtain ⟨c, hc, hx⟩ := List.mem_flatMap.mp hx
    obtain ⟨k, hk, -⟩ := h.owned hn hc
    have := h.le_of_under (h.under_of_mem_preorder hk hx).1
    exact Nat.not_lt.mpr this (h.child_lt hn hc)
  · exact (h.nodup hn).imp_of_mem fun hc hc' hne => h.disjoint_preorder hn hc hc' hne

theorem length_preorder_le (h : Forest m) (hn : m.node? id = some n) :
    (m.preorder id).length ≤ m.nodes.size := by
  have hsub : m.preorder id ⊆ m.nodeIds := fun x hx => by
    obtain ⟨k, hk⟩ := (h.under_of_mem_preorder hn hx).2
    exact mem_nodeIds.mpr (lt_of_node? hk)
  simpa [nodeIds] using (h.nodup_preorder hn).length_le_of_subset hsub

/-- The list depends only on what the nodes below its first one list as their children. -/
theorem preorder_congr_under (h : Forest m) (h' : Forest m')
    (hm : ∀ {x k}, Under m id x → m.node? x = some k →
      ∃ k', m'.node? x = some k' ∧ k'.children = k.children)
    (hn : m.node? id = some n) : m'.preorder id = m.preorder id := by
  refine h.descend (P := fun x => Under m id x → m'.preorder x = m.preorder x)
    (fun x k hk ih hu => ?_) hn .self
  obtain ⟨k', hk', hchildren⟩ := hm hu hk
  rw [h'.preorder_eq hk', h.preorder_eq hk, hchildren]
  refine congrArg _ (List.flatMap_congr fun c hc => ih c hc ?_)
  obtain ⟨q, hq, ho, -⟩ := h.owned hk hc
  exact .owned hq ho hu

/-- The list depends on the places of nodes only. -/
theorem preorder_congr (h : Forest m) (h' : Forest m')
    (hm : ∀ {x k}, m.node? x = some k → ∃ k', m'.node? x = some k' ∧ k.SamePlace k')
    (hn : m.node? id = some n) : m'.preorder id = m.preorder id := by
  refine h.preorder_congr_under h' (fun _ hk => ?_) hn
  obtain ⟨k', hk', s⟩ := hm hk
  exact ⟨k', hk', s.children⟩

/-! ### Rows of nodes -/

end Forest

/-- A row of nodes is listed: the first of them, the listing of its children, and that of the rest
of the row. -/
inductive Listing (m : Model) : List NodeId → List NodeId → Prop
  | nil : Listing m [] []
  | cons {id n row below after} (hn : m.node? id = some n) (hbelow : Listing m n.children below)
      (hafter : Listing m row after) : Listing m (id :: row) (id :: (below ++ after))

namespace Forest

theorem eq_of_listing (h : Forest m) (hl : Listing m row ids) : ids = row.flatMap m.preorder := by
  induction hl with
  | nil => rfl
  | cons hn _ _ below after =>
    rw [List.flatMap_cons, h.preorder_eq hn, ← below, ← after, List.cons_append]

/-- Every row of nodes can be listed. -/
theorem listing_preorder (h : Forest m) (hrow : ∀ x ∈ row, ∃ n, m.node? x = some n) :
    Listing m row (row.flatMap m.preorder) := by
  induction row with
  | nil => exact .nil
  | cons id row ih =>
    obtain ⟨n, hn⟩ := hrow id List.mem_cons_self
    have hafter := ih fun x hx => hrow x (List.mem_cons_of_mem _ hx)
    -- The recursion into the children is that of the forest, the one along a row that of lists.
    refine h.descend (P := fun id => ∀ {row after}, Listing m row after →
      Listing m (id :: row) (m.preorder id ++ after)) (fun id n hn below row after hafter => ?_)
      hn hafter
    have hbelow (cs : List NodeId) (hcs : ∀ c ∈ cs, c ∈ n.children) :
        Listing m cs (cs.flatMap m.preorder) := by
      induction cs with
      | nil => exact .nil
      | cons c cs ihcs =>
        exact below c (hcs c List.mem_cons_self) (ihcs fun d hd => hcs d (List.mem_cons_of_mem _ hd))
    rw [h.preorder_eq hn, List.cons_append]
    exact .cons hn (hbelow n.children fun _ hc => hc) hafter

theorem listing_iff (h : Forest m) (hrow : ∀ x ∈ row, ∃ n, m.node? x = some n) :
    Listing m row ids ↔ ids = row.flatMap m.preorder :=
  ⟨h.eq_of_listing, fun hids => hids ▸ h.listing_preorder hrow⟩

/-! ### The walk with a stack -/

theorem preorderFrom_eq (h : Forest m) {fuel : Nat} {stack : List NodeId}
    (hs : ∀ x ∈ stack, ∃ k, m.node? x = some k)
    (hf : (stack.flatMap m.preorder).length ≤ fuel) :
    m.preorderFrom fuel stack = .ok (stack.flatMap m.preorder) := by
  induction fuel generalizing stack with
  | zero =>
    cases stack with
    | nil => rfl
    | cons id stack =>
      obtain ⟨n, hn⟩ := hs id List.mem_cons_self
      rw [List.flatMap_cons, h.preorder_eq hn, List.cons_append, List.length_cons] at hf
      omega
  | succ fuel ih =>
    cases stack with
    | nil => rfl
    | cons id stack =>
      obtain ⟨n, hn⟩ := hs id List.mem_cons_self
      rw [List.flatMap_cons, h.preorder_eq hn, List.cons_append, List.length_cons] at hf
      have hrest : (n.children ++ stack).flatMap m.preorder =
          n.children.flatMap m.preorder ++ stack.flatMap m.preorder := List.flatMap_append
      rw [preorderFrom, node_of_node? hn]
      simp only
      rw [ih (fun x hx => ?_) (by rw [hrest]; omega), hrest, List.flatMap_cons,
        h.preorder_eq hn, List.cons_append]
      · rfl
      · obtain hx | hx := List.mem_append.mp hx
        · obtain ⟨k, hk, -⟩ := h.owned hn hx
          exact ⟨k, hk⟩
        · exact hs x (List.mem_cons_of_mem _ hx)

/-- The walk from a node yields the node and all below it. -/
theorem subtree_eq (h : Forest m) (hn : m.node? id = some n) :
    m.subtree id = .ok (m.preorder id) := by
  have hlen := h.length_preorder_le hn
  rw [subtree, h.preorderFrom_eq]
  · simp
  · intro x hx
    obtain rfl := List.mem_singleton.mp hx
    exact ⟨n, hn⟩
  · simpa using Nat.le_succ_of_le hlen

end Forest

/-- Only nodes from a position on matter to a walk that starts there. -/
theorem preorderFrom_congr (h : Forest m) {k fuel : Nat} {stack : List NodeId}
    (hs : ∀ x ∈ stack, k ≤ x.index) (hm : ∀ x, k ≤ x.index → m'.node? x = m.node? x) :
    m'.preorderFrom fuel stack = m.preorderFrom fuel stack := by
  induction fuel generalizing stack with
  | zero => cases stack <;> rfl
  | succ fuel ih =>
    cases stack with
    | nil => rfl
    | cons id stack =>
      have hid := hs id List.mem_cons_self
      simp only [preorderFrom, node, hm id hid]
      cases hn : m.node? id with
      | none => rfl
      | some n =>
        simp only
        rw [ih fun x hx => ?_]
        obtain hx | hx := List.mem_append.mp hx
        · exact Nat.le_trans hid (Nat.le_of_lt (h.child_lt hn hx))
        · exact hs x (List.mem_cons_of_mem _ hx)

end SchemaEditor.Model
