import SchemaEditor.Graph.Naming
import SchemaEditor.Proofs.Graph.Evolution
import SchemaEditor.Proofs.Model.Name

/-!
# Names that follow types

`NameConsistent` says that every type suits the node that has it, and that the node has the name
that follows from the type, if its name follows the type at all. A type is a member or a standard
facet of a member, so its name is read off the name of a member. The nodes whose names follow are
properties, and a property that is renamed makes no other name out of date.
-/

namespace SchemaEditor

/-- The name that a property takes from a type of a class with a name; none if its own name does
not follow the type. -/
def PropertyKind.nameFrom? (c : ProviderClass) (typeName : String) : PropertyKind → Option String
  | .attributeRef => some (Naming.referenceName typeName true)
  | .elementRef => some (Naming.referenceName typeName false)
  | .element => if c.controlsName then some (Text.upperFirst typeName) else none
  | _ => none

namespace NodeKind

variable {kind : NodeKind} {user : Facade.Kind}

/-- The facades of properties stand for properties. -/
theorem isProperty_of_ofNode? (h : Facade.Kind.ofNode? kind = some user) :
    kind.isProperty = user.isProperty := by
  cases kind <;> cases h <;> rfl

/-- Members and facets are assigned as types, and nothing else. -/
theorem isMember_or_isFacet (h : Facade.Kind.ofNode? kind = some user)
    (hc : user.providerClass? ≠ none) : kind.isMember = true ∨ kind.isFacet = true := by
  cases kind with
  | member | extensionPoint => exact .inl rfl
  | facet => exact .inr rfl
  | _ =>
    cases h
    exact absurd rfl hc

end NodeKind

namespace Model

/-- What a node is when it is assigned as a type. -/
def providerClass? (m : Model) (id : NodeId) : Option ProviderClass :=
  (m.facadeKind? id).bind Facade.Kind.providerClass?

/-- A node may have another one as its type. -/
def Joins (m : Model) (n : Node) (p : NodeId) : Prop :=
  ∃ user classes c, Facade.Kind.ofNode? n.kind = some user ∧ user.assignable? = some classes ∧
    m.providerClass? p = some c ∧ c ∈ classes

/-- The type `p` has a name, and if the name of the node follows the type, it is the one that
follows from that name. -/
def UpToDate (m : Model) (n : Node) (p : NodeId) : Prop :=
  ∀ c, m.providerClass? p = some c → ∃ typeName, Names m p typeName ∧
    ∀ kind name, n.kind = .property kind → kind.nameFrom? c typeName = some name → n.name = name

/-- Types suit the nodes that have them, and names that follow types are up to date. -/
def NameConsistent (m : Model) : Prop :=
  ∀ u n p, m.node? u = some n → n.typeRef = some p → m.Joins n p ∧ m.UpToDate n p

variable {m m' : Model} {u p x : NodeId} {n n' k : Node} {user : Facade.Kind}
variable {c : ProviderClass} {name typeName : String}

/-! ### Types -/

theorem providerClass?_eq_some_iff :
    m.providerClass? p = some c ↔
      ∃ k kind, m.node? p = some k ∧ Facade.Kind.ofNode? k.kind = some kind ∧
        kind.providerClass? = some c := by
  rw [providerClass?, Option.bind_eq_some_iff]
  simp only [facadeKind?_eq_some_iff]
  constructor
  · rintro ⟨kind, ⟨k, hk, hkind⟩, hc⟩
    exact ⟨k, kind, hk, hkind, hc⟩
  · rintro ⟨k, kind, hk, hkind, hc⟩
    exact ⟨kind, ⟨k, hk, hkind⟩, hc⟩

/-- A type is a member or a facet. -/
theorem kind_of_providerClass? (h : m.providerClass? p = some c) :
    ∃ k, m.node? p = some k ∧ (k.kind.isMember = true ∨ k.kind.isFacet = true) := by
  obtain ⟨k, kind, hk, hkind, hc⟩ := providerClass?_eq_some_iff.mp h
  refine ⟨k, hk, NodeKind.isMember_or_isFacet hkind ?_⟩
  rw [hc]
  exact Option.some_ne_none c

theorem Extends.providerClass? (h : Extends m m') (hc : m.providerClass? p = some c) :
    m'.providerClass? p = some c := by
  obtain ⟨kind, hkind, hc⟩ := Option.bind_eq_some_iff.mp hc
  rw [Model.providerClass?, h.facadeKind? hkind, Option.bind_some, hc]

/-- Every type has a name. -/
theorem Forest.exists_names (h : Forest m) (hc : m.providerClass? p = some c) :
    ∃ name, Names m p name := by
  obtain ⟨k, hk, -⟩ := kind_of_providerClass? hc
  obtain ⟨name, hname⟩ := h.exists_nodeName hk
  exact ⟨name, (h.names_iff hk).mpr hname⟩

theorem Joins.of_extends (h : m.Joins n p) (hm : Extends m m') (hkind : n'.kind = n.kind) :
    m'.Joins n' p := by
  obtain ⟨user, classes, c, huser, hclasses, hc, hmem⟩ := h
  exact ⟨user, classes, c, hkind ▸ huser, hclasses, hm.providerClass? hc, hmem⟩

/-- A type is named after itself, or after the member whose facet it is. -/
theorem Layered.of_namedAfter (h : Layered m) (hc : m.providerClass? p = some c)
    (hx : NamedAfter m x p) :
    ∃ k q, m.node? p = some k ∧ m.node? x = some q ∧
      (x = p ∨ k.kind.isFacet = true ∧ k.owner = some x ∧ q.kind.isMember = true) := by
  obtain ⟨k, hk, hkind⟩ := kind_of_providerClass? hc
  cases hx with
  | self => exact ⟨k, k, hk, hk, .inl rfl⟩
  | @derived _ n o _ hn hending ho hx =>
    obtain rfl := Option.some.inj (hn.symm.trans hk)
    have hfacet : n.kind.isFacet = true := by
      refine hkind.resolve_left fun hmember => ?_
      cases (NodeKind.ending?_of_isMember hmember).symm.trans hending
    obtain ⟨o', q, ho', hq, hmember⟩ := h p n hk hfacet
    obtain rfl := Option.some.inj (ho'.symm.trans ho)
    -- The name of a member is its own.
    cases hx with
    | self => exact ⟨n, q, hk, hq, .inr ⟨hfacet, ho, hmember⟩⟩
    | @derived _ n' _ _ hn' hending' =>
      obtain rfl := Option.some.inj (hn'.symm.trans hq)
      cases (NodeKind.ending?_of_isMember hmember).symm.trans hending'

/-- No type is named after a property. -/
theorem Layered.not_namedAfter (h : Layered m) (hc : m.providerClass? p = some c)
    (hx : m.node? x = some n) (hn : n.kind.isProperty = true) : ¬ NamedAfter m x p := by
  intro hafter
  obtain ⟨k, q, hk, hq, rfl | ⟨-, -, hmember⟩⟩ := h.of_namedAfter hc hafter
  · obtain ⟨k', hk', hmember | hfacet⟩ := kind_of_providerClass? hc
    · obtain rfl := Option.some.inj (hk'.symm.trans hx)
      cases (NodeKind.isMember_of_isProperty hn).symm.trans hmember
    · obtain rfl := Option.some.inj (hk'.symm.trans hx)
      cases (NodeKind.isFacet_of_isProperty hn).symm.trans hfacet
  · obtain rfl := Option.some.inj (hq.symm.trans hx)
    cases (NodeKind.isMember_of_isProperty hn).symm.trans hmember

/-! ### The names that follow -/

/-- Whether a name follows a node can be told of every node of a forest. -/
theorem Forest.exists_followedName? (h : Forest m) (hn : m.node? p = some n)
    (user : Facade.Kind) : ∃ name?, m.followedName? user p = .ok name? := by
  obtain ⟨name, hname⟩ := h.exists_nodeName hn
  unfold followedName?
  cases user.property? with
  | none => exact ⟨none, rfl⟩
  | some kind =>
    rw [hname, node_of_node? hn]
    simp only [Outcome.ok_bind]
    split <;> exact ⟨_, rfl⟩

/-- Only the names of references and of elements follow. -/
theorem property_of_followedName? {user : Facade.Kind} {name : String}
    (h : m.followedName? user p = .ok (some name)) :
    ∃ property, user.property? = some property ∧
      (property.profile.naming = .fromType ∨ property = .element) := by
  rw [followedName?] at h
  cases hk : user.property? with
  | none => simp [hk] at h
  | some property =>
    simp only [hk] at h
    obtain ⟨_, -, h⟩ := Outcome.bind_eq_ok_iff.mp h
    refine ⟨property, rfl, ?_⟩
    split at h
    · next hnaming => exact .inl hnaming
    · obtain ⟨_, -, h⟩ := Outcome.bind_eq_ok_iff.mp h
      split at h
      · next helement => exact .inr helement.1
      · cases h

/-- Only names of properties follow a type. -/
theorem isProperty_of_followedName? {user : Facade.Kind} {name : String}
    (h : m.followedName? user p = .ok (some name)) : user.isProperty = true := by
  obtain ⟨property, hk, -⟩ := property_of_followedName? h
  rw [Facade.Kind.isProperty, hk]
  rfl

/-- What a name that follows a type is computed to be. -/
theorem Forest.followedName?_eq (h : Forest m) (hc : m.providerClass? p = some c)
    (hname : Names m p typeName) (user : Facade.Kind) :
    m.followedName? user p = .ok (user.property?.bind (·.nameFrom? c typeName)) := by
  obtain ⟨k, kind, hk, hkind, hc⟩ := providerClass?_eq_some_iff.mp hc
  rw [followedName?]
  cases user.property? with
  | none => rfl
  | some property =>
    rw [h.nodeName_of_names hname, node_of_node? hk]
    simp only [Outcome.ok_bind, hkind, hc, Option.bind_some, Option.any_some]
    cases property <;> simp [PropertyKind.nameFrom?, PropertyKind.profile,
      PropertyKind.isAttribute, pure, Except.pure]

/-- A node whose name is what was computed is up to date, also if nothing was to be done. -/
theorem Forest.upToDate (h : Forest m) (hkind : Facade.Kind.ofNode? n.kind = some user)
    {name? : Option String} (hfollowed : m.followedName? user p = .ok name?)
    (hname : ∀ name, name? = some name → n.name = name) : m.UpToDate n p := by
  intro c hc
  obtain ⟨typeName, hnames⟩ := h.exists_names hc
  refine ⟨typeName, hnames, fun kind name hk hfrom => hname name ?_⟩
  rw [hk] at hkind
  obtain rfl := Option.some.inj hkind
  rw [h.followedName?_eq hc hnames] at hfollowed
  exact (Except.ok.inj hfollowed).symm.trans hfrom

/-- A name is still up to date if the type is not named after the node that gets a new name. -/
theorem UpToDate.rename (h : m.UpToDate n p)
    (hx : ∀ c, m.providerClass? p = some c → ¬ NamedAfter m x p) (newName : String) :
    (m.modifyNode x fun n => { n with name := newName }).UpToDate n p := by
  have hsame (y : NodeId) : (m.modifyNode x fun n => { n with name := newName }).facadeKind? y =
      m.facadeKind? y := by
    rw [facadeKind?, facadeKind?, node?_modifyNode]
    split
    · cases m.node? y <;> rfl
    · rfl
  intro c hc
  rw [providerClass?, hsame] at hc
  obtain ⟨typeName, hnames, hfrom⟩ := h c hc
  exact ⟨typeName, hnames.rename (hx c hc) newName, hfrom⟩

/-- A name is still up to date if no node got a new name. -/
theorem UpToDate.of_keepsNames (h : m.UpToDate n p) (hm : Extends m m')
    (hnames : KeepsNames m m') (hj : m.Joins n p) (hkind : n'.kind = n.kind)
    (hname : n'.name = n.name) : m'.UpToDate n' p := by
  obtain ⟨-, -, c, -, -, hc, -⟩ := hj
  intro c' hc'
  obtain rfl := Option.some.inj ((hm.providerClass? hc).symm.trans hc')
  obtain ⟨typeName, htype, hfrom⟩ := h c hc
  refine ⟨typeName, hnames.names htype, fun kind name hk hn => ?_⟩
  exact hname.trans (hfrom kind name (hkind ▸ hk) hn)

/-- The name of a node follows its type, or need not. -/
def Current (m : Model) (u : NodeId) : Prop :=
  ∀ n p, m.node? u = some n → n.typeRef = some p → m.UpToDate n p

/-- A property that gets the name that follows its type has it, and nothing else falls behind. -/
theorem Current.rename (hf : Forest m) (hl : Layered m) (hx : m.node? x = some k)
    (hp : k.typeRef = some p) (hkind : Facade.Kind.ofNode? k.kind = some user)
    (hname : m.followedName? user p = .ok (some name)) (hu : u = x ∨ m.Current u) :
    (m.modifyNode x fun n => { n with name }).Current u := by
  have hproperty : k.kind.isProperty = true :=
    (NodeKind.isProperty_of_ofNode? hkind).trans (isProperty_of_followedName? hname)
  have hafter {q : NodeId} (c) (hc : m.providerClass? q = some c) : ¬ NamedAfter m x q :=
    hl.not_namedAfter hc hx hproperty
  intro n q hn hq
  obtain ⟨k', rfl, hk', rfl⟩ | ⟨hux, hn⟩ := modifyNode_cases hn
  · obtain rfl := Option.some.inj (hx.symm.trans hk')
    obtain rfl := Option.some.inj (hp.symm.trans hq)
    refine UpToDate.rename ?_ hafter name
    exact hf.upToDate hkind hname fun name' he => Option.some.inj he
  · exact (hu.resolve_left hux n q hn hq).rename hafter name

end Model

end SchemaEditor
