import SchemaEditor.Proofs.Model.Detach
import SchemaEditor.Proofs.Outcome
import SchemaEditor.Usage.Index

/-!
# References of attached nodes

`reference?` is what an index is about: the references of the nodes that are attached. Most changes
of a model leave them as they are; writing a slot changes one, and detaching a node clears those of
the nodes below it. In a tidy model they all lead to attached nodes.
-/

namespace SchemaEditor

namespace Model

variable {m m' : Model} {id : NodeId} {n : Node} {r : Usage.Reference}

/-- A reference of an attached node. -/
def reference? (m : Model) (r : Usage.Reference) : Option NodeId :=
  (m.node? r.user).bind fun n => if n.attached then r.slot.reference n else none

/-- The member of a node, if there is the node. -/
def member? (m : Model) (id : NodeId) : Option NodeId := (m.memberOf id).toOption

theorem reference?_eq_some_iff {p : NodeId} :
    m.reference? r = some p ↔
      ∃ n, m.node? r.user = some n ∧ n.attached = true ∧ r.slot.reference n = some p := by
  rw [reference?, Option.bind_eq_some_iff]
  refine exists_congr fun n => and_congr_right fun _ => ?_
  cases n.attached <;> simp

theorem reference?_of_attached (hn : m.node? r.user = some n) (ha : n.attached = true) :
    m.reference? r = r.slot.reference n := by
  simp [reference?, hn, ha]

theorem member?_eq_some_iff {top : NodeId} : m.member? id = some top ↔ m.memberOf id = .ok top := by
  unfold member?
  cases m.memberOf id <;> simp [Except.toOption]

theorem exists_node?_of_member? {top : NodeId} (h : m.member? id = some top) :
    ∃ n, m.node? id = some n := by
  cases hn : m.node? id with
  | some n => exact ⟨n, rfl⟩
  | none =>
    rw [member?_eq_some_iff, memberOf, node_of_none hn] at h
    cases h

/-- Every node has a member, whatever its owners are: climbing only descends in the arena. -/
theorem exists_member? {id : NodeId} {n : Node} (hn : m.node? id = some n) :
    ∃ top, m.member? id = some top := by
  simp only [member?_eq_some_iff]
  rw [memberOf, node_of_node? hn]
  simp only
  split
  · exact ⟨id, rfl⟩
  · split
    · next owner _ hlt =>
      obtain ⟨k, hk⟩ := exists_node? (Nat.lt_trans hlt (lt_of_node? hn))
      obtain ⟨top, htop⟩ := exists_member? hk
      exact ⟨top, member?_eq_some_iff.mp htop⟩
    · exact ⟨id, rfl⟩
termination_by id.index

theorem Forest.member?_of_extends (h : Forest m) (h' : Forest m') (hm : Extends m m')
    (hn : m.node? id = some n) : m'.member? id = m.member? id := by
  rw [member?, member?, h.memberOf_of_extends h' hm hn]

end Model

namespace Usage

variable {m m' : Model} {r : Reference} {n : Node}

namespace Slot

/-- A node refers to another one by its type or by its base. -/
theorem exists_reference_iff {p : NodeId} :
    (∃ s : Slot, s.reference n = some p) ↔ n.typeRef = some p ∨ n.base = some p := by
  constructor
  · rintro ⟨s, hs⟩
    cases s with
    | type => exact .inl hs
    | base => exact .inr hs
  · rintro (ht | hb)
    · exact ⟨.type, ht⟩
    · exact ⟨.base, hb⟩

/-- A node with another reference in a slot. -/
def put (s : Slot) (provider : Option NodeId) (n : Node) : Node :=
  match s with
  | .type => { n with typeRef := provider }
  | .base => { n with base := provider }

theorem samePlace_put (s : Slot) (provider : Option NodeId) (n : Node) :
    n.SamePlace (s.put provider n) := by
  cases s <;> exact ⟨rfl, rfl, rfl, rfl, rfl⟩

theorem reference_put (s t : Slot) (provider : Option NodeId) (n : Node) :
    t.reference (s.put provider n) = if t = s then provider else t.reference n := by
  cases s <;> cases t <;> rfl

theorem extends_put (s : Slot) (m : Model) (user : NodeId) (provider : Option NodeId) :
    m.Extends (m.modifyNode user (s.put provider)) :=
  .modifyNode m user fun n => ⟨(s.samePlace_put provider n).kind,
    (s.samePlace_put provider n).owner, (s.samePlace_put provider n).library⟩

theorem write_of_node? (s : Slot) {user : NodeId} (hn : m.node? user = some n)
    (provider : Option NodeId) :
    s.write m user provider = .ok (m.modifyNode user (s.put provider)) := by
  cases s <;> exact Model.update_of_node? hn _

theorem write_of_none (s : Slot) {user : NodeId} (hn : m.node? user = none)
    (provider : Option NodeId) : s.write m user provider = .error (.unknownNode user) := by
  cases s <;> simp only [write, Model.setTypeRef, Model.setBase, Model.update, hn]

theorem write_eq_ok_iff (s : Slot) {user : NodeId} {provider : Option NodeId} :
    s.write m user provider = .ok m' ↔
      (∃ n, m.node? user = some n) ∧ m' = m.modifyNode user (s.put provider) := by
  cases s <;> exact Model.update_eq_ok_iff

end Slot

end Usage

namespace Model

variable {m m' : Model} {id : NodeId} {n : Node} {r : Usage.Reference}

/-! ### References after a change -/

/-- A change of a node that is neither in its references nor in its mark. -/
theorem reference?_modifyNode (m : Model) (id : NodeId) {f : Node → Node}
    (hf : ∀ n, (f n).typeRef = n.typeRef ∧ (f n).base = n.base ∧ (f n).attached = n.attached)
    (r : Usage.Reference) : (m.modifyNode id f).reference? r = m.reference? r := by
  rw [reference?, node?_modifyNode]
  by_cases hr : r.user = id
  · rw [if_pos hr, reference?]
    cases m.node? r.user with
    | none => rfl
    | some n =>
      obtain ⟨ht, hb, ha⟩ := hf n
      simp only [Option.map_some, Option.bind_some, ha]
      cases hs : r.slot <;> simp only [Usage.Slot.reference, ht, hb]
  · rw [if_neg hr, reference?]

theorem reference?_appendChild {owner : NodeId} {p : Node} (hp : m.node? owner = some p)
    (library : LibraryId) (kind : NodeKind) (name : String) (r : Usage.Reference) :
    (m.appendChild owner library kind name).2.reference? r = m.reference? r := by
  have hfresh (s : Usage.Slot) : s.reference (.fresh kind library (some owner) name) = none := by
    cases s <;> rfl
  rw [reference?, node?_appendChild hp, reference?]
  split
  · next hnew => simp [hnew, hfresh]
  · split
    · next hown =>
      rw [hown, hp, Option.bind_some, Option.bind_some]
      cases hs : r.slot <;> rfl
    · rfl

/-- Detaching clears the references of the nodes below. -/
theorem reference?_without (m : Model) (id : NodeId) (n : Node) (r : Usage.Reference) :
    (m.without id n).reference? r = if r.user ∈ m.preorder id then none else m.reference? r := by
  rw [reference?, node?_without, reference?]
  cases m.node? r.user with
  | none => simp
  | some k =>
    simp only [Option.map_some, Option.bind_some, Node.cut]
    by_cases hr : r.user ∈ m.preorder id
    · simp [hr]
    · cases hs : r.slot <;> simp [hr, Usage.Slot.reference]

/-- Writing a slot of an attached node changes one reference. -/
theorem reference?_write (hn : m.node? r.user = some n) (ha : n.attached = true)
    (provider : Option NodeId) :
    (m.modifyNode r.user (r.slot.put provider)).reference? =
      Function.update m.reference? r provider := by
  funext s
  rw [reference?, node?_modifyNode]
  by_cases hu : s.user = r.user
  · rw [if_pos hu, hu, hn]
    simp only [Option.map_some, Option.bind_some, (Usage.Slot.samePlace_put _ _ n).attached, ha,
      if_true, Usage.Slot.reference_put]
    by_cases hs : s.slot = r.slot
    · obtain rfl : s = r := by cases s; cases r; cases hu; cases hs; rfl
      simp
    · have hne : s ≠ r := fun he => hs (he ▸ rfl)
      rw [if_neg hs, Function.update_of_ne hne, reference?_of_attached (hu ▸ hn) ha]
  · have hne : s ≠ r := fun he => hu (he ▸ rfl)
    rw [if_neg hu, Function.update_of_ne hne, reference?]

/-! ### Tidy models -/

/-- The references of attached nodes lead to attached nodes. -/
def Tidy (m : Model) : Prop :=
  ∀ r p, m.reference? r = some p → ∃ k, m.node? p = some k ∧ k.attached = true

namespace Tidy

/-- The references are among those of a tidy model, and their ends are still attached. -/
theorem of_subset (h : Tidy m) (hr : ∀ r p, m'.reference? r = some p → m.reference? r = some p)
    (ha : ∀ r p k, m'.reference? r = some p → m.node? p = some k → k.attached = true →
      ∃ k', m'.node? p = some k' ∧ k'.attached = true) : Tidy m' := by
  intro r p hp
  obtain ⟨k, hk, hka⟩ := h r p (hr r p hp)
  exact ha r p k hp hk hka

theorem modifyNode (h : Tidy m) (id : NodeId) {f : Node → Node}
    (hf : ∀ n, (f n).typeRef = n.typeRef ∧ (f n).base = n.base ∧ (f n).attached = n.attached) :
    Tidy (m.modifyNode id f) := by
  refine h.of_subset (fun r p hp => ?_) fun r p k _ hk hka => ?_
  · rwa [reference?_modifyNode m id hf] at hp
  · rw [node?_modifyNode, hk]
    split
    · exact ⟨f k, rfl, (hf k).2.2.trans hka⟩
    · exact ⟨k, rfl, hka⟩

theorem appendChild (h : Tidy m) {owner : NodeId} {p : Node} (hp : m.node? owner = some p)
    (library : LibraryId) (kind : NodeKind) (name : String) :
    Tidy (m.appendChild owner library kind name).2 := by
  refine h.of_subset (fun r q hq => ?_) fun r q k _ hk hka => ?_
  · rwa [reference?_appendChild hp] at hq
  · rw [node?_appendChild hp, if_neg (ne_nextId hk)]
    split
    · next hown => exact ⟨_, rfl, Option.some.inj (hp.symm.trans (hown ▸ hk)) ▸ hka⟩
    · exact ⟨k, hk, hka⟩

/-- A reference that is cleared or pointed at an attached node. -/
theorem write (h : Tidy m) (hn : m.node? r.user = some n) (ha : n.attached = true)
    {provider : Option NodeId}
    (hp : ∀ p, provider = some p → ∃ k, m.node? p = some k ∧ k.attached = true) :
    Tidy (m.modifyNode r.user (r.slot.put provider)) := by
  intro s q hs
  -- Its end is attached before, and writing a slot detaches nothing.
  have hend : ∃ k, m.node? q = some k ∧ k.attached = true := by
    rw [reference?_write hn ha] at hs
    by_cases hsr : s = r
    · rw [hsr, Function.update_self] at hs
      exact hp q hs
    · rw [Function.update_of_ne hsr] at hs
      exact h s q hs
  obtain ⟨k, hk, hka⟩ := hend
  rw [node?_modifyNode, hk]
  split
  · exact ⟨_, rfl, (r.slot.samePlace_put provider k).attached.trans hka⟩
  · exact ⟨k, rfl, hka⟩

/-- Nothing that is left refers to what was below the detached node. -/
theorem without (h : Tidy m) (hr : ∀ r p, m.reference? r = some p → p ∉ m.preorder id) :
    Tidy (m.without id n) := by
  have hsub (r p) (hp : (m.without id n).reference? r = some p) : m.reference? r = some p := by
    rw [reference?_without] at hp
    split at hp
    · cases hp
    · exact hp
  refine h.of_subset hsub fun r p k hp hk hka => ?_
  exact ⟨_, node?_without_of_node? hk id n, Node.attached_cut.mpr ⟨hka, hr r p (hsub r p hp)⟩⟩

end Tidy

end Model

end SchemaEditor
