import SchemaEditor.Proofs.Model.Forest
import SchemaEditor.Proofs.Outcome

/-!
# Derived names

A node has the name it was given, or a name that is its owner's with an ending of its kind. The
kinds that derive their names belong to parts, so in a forest every node has a name. `Names` looks
names up without a bound; in a forest this ends on every node, with its name.
-/

namespace SchemaEditor

/-- How the derived name of a node ends; none if the node has the name it was given. -/
def NodeKind.ending? : NodeKind → Option String
  | .facet role => some ("_" ++ role.suffix)
  | .actionRequest => some "_Request"
  | .actionResponse => some "_Response"
  | _ => none

theorem NodeKind.ending?_of_isMember {kind : NodeKind} (h : kind.isMember = true) :
    kind.ending? = none := by
  cases kind with
  | member | extensionPoint => rfl
  | _ => cases h

namespace Model

/-- Looking up the name of a node, and of its owner where the name is derived, ends with a name. -/
inductive Names (m : Model) : NodeId → String → Prop
  | given {id n} (hn : m.node? id = some n) (hk : n.kind.ending? = none) : Names m id n.name
  | derived {id n o name ending} (hn : m.node? id = some n) (hk : n.kind.ending? = some ending)
      (ho : n.owner = some o) (h : Names m o name) : Names m id (name ++ ending)

/-- The name of a node is looked up in the name that `x` was given. -/
inductive NamedAfter (m : Model) (x : NodeId) : NodeId → Prop
  | self : NamedAfter m x x
  | derived {id n o ending} (hn : m.node? id = some n) (hk : n.kind.ending? = some ending)
      (ho : n.owner = some o) (h : NamedAfter m x o) : NamedAfter m x id

variable {m : Model} {id o : NodeId} {n : Node} {ending name : String}

theorem nodeName_of_given (hn : m.node? id = some n) (hk : n.kind.ending? = none) :
    m.nodeName id = .ok n.name := by
  rw [nodeName, node_of_node? hn]
  cases hkind : n.kind <;> simp_all [NodeKind.ending?]

theorem exists_node?_of_nodeName (h : m.nodeName id = .ok name) : ∃ n, m.node? id = some n := by
  cases hn : m.node id with
  | ok n => exact ⟨n, node_eq_ok_iff.mp hn⟩
  | error err =>
    rw [nodeName, hn] at h
    cases h

namespace Forest

theorem nodeName_of_ending (h : Forest m) (hn : m.node? id = some n)
    (hk : n.kind.ending? = some ending) (ho : n.owner = some o) :
    m.nodeName id = (m.nodeName o).map (· ++ ending) := by
  rw [nodeName, node_of_node? hn]
  cases hkind : n.kind <;> simp_all [NodeKind.ending?, h.owner_lt hn ho]

/-- A node with a derived name is no member, so it has an owner. -/
theorem exists_owner_of_ending (h : Forest m) (hn : m.node? id = some n)
    (hk : n.kind.ending? = some ending) : ∃ o, n.owner = some o := by
  cases ho : n.owner with
  | some o => exact ⟨o, rfl⟩
  | none => cases (NodeKind.ending?_of_isMember (h.root_kind hn ho)).symm.trans hk

/-- Every node of a forest has a derived name. -/
theorem exists_nodeName (h : Forest m) {id : NodeId} {n : Node} (hn : m.node? id = some n) :
    ∃ name, m.nodeName id = .ok name := by
  cases hk : n.kind.ending? with
  | none => exact ⟨_, nodeName_of_given hn hk⟩
  | some ending =>
    obtain ⟨o, ho⟩ := h.exists_owner_of_ending hn hk
    obtain ⟨p, hp⟩ := h.owner_exists hn ho
    have := h.owner_lt hn ho
    obtain ⟨name, hname⟩ := h.exists_nodeName hp
    exact ⟨name ++ ending, by rw [h.nodeName_of_ending hn hk ho, hname]; rfl⟩
termination_by id.index

theorem nodeName_of_names (h : Forest m) (hs : Names m id name) : m.nodeName id = .ok name := by
  induction hs with
  | given hn hk => exact nodeName_of_given hn hk
  | derived hn hk ho _ ih => rw [h.nodeName_of_ending hn hk ho, ih]; rfl

/-- Looking up a name ends on every node, with its name. -/
theorem names_iff (h : Forest m) {id : NodeId} {n : Node} {name : String}
    (hn : m.node? id = some n) : Names m id name ↔ m.nodeName id = .ok name := by
  refine ⟨h.nodeName_of_names, fun hname => ?_⟩
  cases hk : n.kind.ending? with
  | none =>
    obtain rfl := Except.ok.inj ((nodeName_of_given hn hk).symm.trans hname)
    exact .given hn hk
  | some ending =>
    obtain ⟨o, ho⟩ := h.exists_owner_of_ending hn hk
    obtain ⟨p, hp⟩ := h.owner_exists hn ho
    have := h.owner_lt hn ho
    rw [h.nodeName_of_ending hn hk ho] at hname
    obtain ⟨front, hfront, rfl⟩ := Outcome.map_eq_ok_iff.mp hname
    exact .derived hn hk ho ((h.names_iff hp).mpr hfront)
termination_by id.index

end Forest

/-! ### Names that stay -/

/-- A name depends only on the nodes that it is looked up in. -/
theorem Names.congr {m' : Model} (h : Names m id name)
    (hsame : ∀ x, NamedAfter m x id → m'.node? x = m.node? x) : Names m' id name := by
  induction h with
  | @given id n hn hk => exact .given ((hsame id .self).trans hn) hk
  | @derived id n o name ending hn hk ho _ ih =>
    have hown := ih fun x hx => hsame x (.derived hn hk ho hx)
    exact .derived ((hsame id .self).trans hn) hk ho hown

/-- A new name for one node is no new name for a node that is not named after it. -/
theorem Names.rename {x : NodeId} (h : Names m id name) (hx : ¬ NamedAfter m x id)
    (newName : String) :
    Names (m.modifyNode x fun n => { n with name := newName }) id name := by
  refine h.congr fun y hy => ?_
  have hne : y ≠ x := fun he => hx (he ▸ hy)
  exact (node?_modifyNode ..).trans (if_neg hne)

/-- Every node is still there, with the name it was given and what its derived name depends on. -/
def KeepsNames (m m' : Model) : Prop :=
  ∀ x n, m.node? x = some n →
    ∃ n', m'.node? x = some n' ∧ n'.kind = n.kind ∧ n'.owner = n.owner ∧ n'.name = n.name

theorem KeepsNames.names {m' : Model} (hm : KeepsNames m m') (h : Names m id name) :
    Names m' id name := by
  induction h with
  | given hn hk =>
    obtain ⟨n', hn', hkind, -, hname⟩ := hm _ _ hn
    rw [← hname]
    exact .given hn' (hkind ▸ hk)
  | derived hn hk ho _ ih =>
    obtain ⟨n', hn', hkind, howner, -⟩ := hm _ _ hn
    exact .derived hn' (hkind ▸ hk) (howner.trans ho) ih

end Model

end SchemaEditor
