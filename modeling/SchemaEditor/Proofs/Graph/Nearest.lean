import SchemaEditor.Proofs.Graph.Hiding

/-!
# The nearest declaration

A facet inherits the children of the facets in its role along the chain of bases of its object. Of
each name that none of its own children has, it inherits exactly the nearest declaration: the first
child of the name in the nearest base that has one (`InheritsNearest`). This needs that no object has
two facets in a role, and that everything below a facet has a kind of facade. The chain stops before
a base comes again, so nothing is asked of the bases; they may run in a circle.
-/

namespace SchemaEditor

namespace Model

variable {m : Model} {name : String} {x b c o : NodeId} {n : Node} {role : FacetRole}
variable {bases nodes : List NodeId}

/-- The children of a node. -/
def childrenOf (m : Model) (x : NodeId) : List NodeId := (m.node? x).toList.flatMap (·.children)

/-- What a node declares in a role: the children of its facets in the role, in order. -/
def declared (m : Model) (role : FacetRole) (x : NodeId) : List NodeId :=
  ((m.childrenOf x).filter fun c => (m.node? c).any (·.kind = .facet role)).flatMap m.childrenOf

/-- The nearest declaration of a name in a role: the first of the name in the nearest base that
declares it. -/
def NearestNamed (m : Model) (role : FacetRole) (name : String) (bases : List NodeId)
    (c : NodeId) : Prop :=
  ∃ nearer base farther, bases = nearer ++ base :: farther ∧
    (∀ b ∈ nearer, ∀ d ∈ m.declared role b, m.nodeName d ≠ .ok name) ∧
    m.FirstNamed name (m.declared role base) c

theorem mem_childrenOf : c ∈ m.childrenOf x ↔ ∃ n, m.node? x = some n ∧ c ∈ n.children := by
  simp [childrenOf]

/-- Searching what all bases declare finds the nearest declaration. -/
theorem nearestNamed_iff_firstNamed :
    m.NearestNamed role name bases c ↔ m.FirstNamed name (bases.flatMap (m.declared role)) c := by
  rw [firstNamed_iff_find?, List.find?_flatMap, List.findSome?_eq_some_iff, NearestNamed]
  simp only [firstNamed_iff_find?, List.find?_eq_none, decide_eq_true_eq]
  constructor
  · rintro ⟨nearer, base, farther, hbases, hnearer, hfirst⟩
    exact ⟨nearer, base, farther, hbases, hfirst, hnearer⟩
  · rintro ⟨nearer, base, farther, hbases, hfirst, hnearer⟩
    exact ⟨nearer, base, farther, hbases, hnearer, hfirst⟩

namespace NearestNamed

theorem unique {c' : NodeId} (h : m.NearestNamed role name bases c)
    (h' : m.NearestNamed role name bases c') : c = c' :=
  (nearestNamed_iff_firstNamed.mp h).unique (nearestNamed_iff_firstNamed.mp h')

theorem nodeName_eq (h : m.NearestNamed role name bases c) : m.nodeName c = .ok name :=
  (nearestNamed_iff_firstNamed.mp h).1

end NearestNamed

theorem exists_nearestNamed (hb : b ∈ bases) (hc : c ∈ m.declared role b)
    (hname : m.nodeName c = .ok name) : ∃ d, m.NearestNamed role name bases d := by
  obtain ⟨d, hd⟩ := exists_firstNamed (List.mem_flatMap.mpr ⟨b, hb, hc⟩) hname
  exact ⟨d, nearestNamed_iff_firstNamed.mpr hd⟩

/-- A declared node is owned by a facet, and that by the declaring node. -/
theorem Forest.owner_of_mem_declared (hf : Forest m) (h : c ∈ m.declared role b) :
    ∃ k facet p, m.node? c = some k ∧ k.owner = some facet ∧ m.node? facet = some p ∧
      p.owner = some b := by
  obtain ⟨facet, hfacet, hc⟩ := List.mem_flatMap.mp h
  obtain ⟨n, hn, hfacet⟩ := mem_childrenOf.mp (List.mem_of_mem_filter hfacet)
  obtain ⟨p, hp, hc⟩ := mem_childrenOf.mp hc
  obtain ⟨p', hp', hb, -⟩ := hf.owned hn hfacet
  obtain rfl := Option.some.inj (hp.symm.trans hp')
  obtain ⟨k, hk, ho, -⟩ := hf.owned hp hc
  exact ⟨k, facet, p, hk, ho, hp, hb⟩

/-- No node is a child of two nodes, or twice of one. -/
theorem Forest.nodup_flatMap_childrenOf (hf : Forest m) (hnodup : nodes.Nodup) :
    (nodes.flatMap m.childrenOf).Nodup := by
  refine List.nodup_flatMap.mpr ⟨fun x _ => ?_, hnodup.imp fun hne c hc hc' => hne ?_⟩
  · cases hn : m.node? x with
    | none => simp [childrenOf, hn]
    | some n => simpa [childrenOf, hn] using hf.nodup hn
  · obtain ⟨n, hn, hc⟩ := mem_childrenOf.mp hc
    obtain ⟨n', hn', hc'⟩ := mem_childrenOf.mp hc'
    obtain ⟨k, hk, ho, -⟩ := hf.owned hn hc
    obtain ⟨k', hk', ho', -⟩ := hf.owned hn' hc'
    obtain rfl := Option.some.inj (hk.symm.trans hk')
    exact Option.some.inj (ho.symm.trans ho')

/-- Nothing is declared twice along a chain. -/
theorem Forest.nodup_declared (hf : Forest m) (hnodup : bases.Nodup) :
    (bases.flatMap (m.declared role)).Nodup := by
  have hfacets := (hf.nodup_flatMap_childrenOf hnodup).filter
    fun c => (m.node? c).any (·.kind = .facet role)
  rw [List.filter_flatMap] at hfacets
  have := hf.nodup_flatMap_childrenOf hfacets
  rwa [List.flatMap_assoc] at this

/-! ### Where a node belongs -/

/-- The node that another belongs to: what it contributes into, or else its owner. -/
def holder? (m : Model) (y : NodeId) : Option NodeId :=
  (m.node? y).bind fun n => n.contributesTo.or n.owner

namespace OnlyRootsContribute

variable (h : OnlyRootsContribute m)
include h

theorem holder?_of_owner (hn : m.node? x = some n) (ho : n.owner = some o) :
    m.holder? x = some o := by
  have htarget : n.contributesTo = none := by
    by_contra hc
    cases ho.symm.trans (h x n hn hc)
  rw [holder?, hn, Option.bind_some, htarget, Option.none_or, ho]

/-- What is listed under a node belongs to it. -/
theorem holder?_of_mem_listedUnder (hf : Forest m) (hn : m.node? x = some n)
    (hc : c ∈ m.listedUnder x) : m.holder? c = some x := by
  obtain ⟨hc, -⟩ := mem_listedUnder.mp hc
  rw [offspring_of_node? hn, List.mem_append] at hc
  obtain hc | hc := hc
  · obtain ⟨k, hk, ho, -⟩ := hf.owned hn hc
    exact h.holder?_of_owner hk ho
  · obtain ⟨k, hk, htarget⟩ := exists_target_of_mem_contributions hc
    rw [holder?, hk, Option.bind_some, htarget, Option.some_or]

/-- What a base declares does not belong to the facets of the object, which is not among its own
bases. -/
theorem holder?_of_mem_declared (hf : Forest m) (hn : m.node? x = some n) (ho : n.owner = some o)
    (hb : b ∈ m.baseChain o) (hc : c ∈ m.declared role b) : m.holder? c ≠ some x := by
  obtain ⟨k, facet, p, hk, hko, hp, hpo⟩ := hf.owner_of_mem_declared hc
  rw [h.holder?_of_owner hk hko]
  rintro hsame
  obtain rfl := Option.some.inj hsame
  obtain rfl := Option.some.inj (hn.symm.trans hp)
  exact (mem_baseChain_iff.mp hb).1 (Option.some.inj (hpo.symm.trans ho))

end OnlyRootsContribute

/-! ### Objects with one facet in each role -/

/-- Where at most one element is looked for, a search that goes on finds no other. -/
theorem toList_find?_of_nodup {p : NodeId → Bool} (hnodup : nodes.Nodup)
    (hone : ∀ x ∈ nodes, ∀ y ∈ nodes, p x = true → p y = true → x = y) :
    (nodes.find? p).toList = nodes.filter p := by
  rw [← List.head?_filter]
  have hnodup := hnodup.filter p
  match hfound : nodes.filter p with
  | [] => rfl
  | [x] => rfl
  | x :: y :: rest =>
    have hmem (z : NodeId) (hz : z = x ∨ z = y) : z ∈ nodes ∧ p z = true :=
      List.mem_filter.mp (by rw [hfound]; rcases hz with rfl | rfl <;> simp)
    have hsame := hone x (hmem x (.inl rfl)).1 y (hmem y (.inr rfl)).1 (hmem x (.inl rfl)).2
      (hmem y (.inr rfl)).2
    rw [hfound, hsame] at hnodup
    simp at hnodup

namespace Nested

variable (h : Nested m) (hf : Forest m)
include h

/-- What has an owner has a kind of facade. -/
theorem faced (hn : m.node? x = some n) (ho : n.owner = some o) : m.Faced x := by
  refine (faced_iff hn).mpr fun hpoint => ?_
  have := h.inner hn ho
  rw [hpoint] at this
  cases this

include hf

theorem toList_facet? (x : NodeId) (role : FacetRole) :
    (m.facet? x role).toList =
      (m.childrenOf x).filter fun c => (m.node? c).any (·.kind = .facet role) := by
  rw [facet?, childrenOf]
  cases hn : m.node? x with
  | none => rfl
  | some n =>
    rw [Option.bind_some, Option.toList_some, List.flatMap_singleton]
    refine toList_find?_of_nodup (hf.nodup hn) fun c hc d hd hc' hd' => ?_
    obtain ⟨k, hk, hko, -⟩ := hf.owned hn hc
    obtain ⟨l, hl, hlo, -⟩ := hf.owned hn hd
    rw [hk, Option.any_some, decide_eq_true_eq] at hc'
    rw [hl, Option.any_some, decide_eq_true_eq] at hd'
    exact h.single hk hl (by rw [hc']; rfl) (hd'.trans hc'.symm) (hlo.trans hko.symm)

/-- What is offered to a facet is what the bases of its object declare in its role. -/
theorem offered_facet (hn : m.node? x = some n) (ho : n.owner = some o) :
    m.offered x (.facet role) = (m.baseChain o).flatMap (m.declared role) := by
  have hdeclared (b : NodeId) : m.declared role b =
      (m.facet? b role).toList.flatMap fun facet => (m.node? facet).toList.flatMap (·.children) := by
    rw [h.toList_facet? hf]
    rfl
  simp only [offered, hn, Option.bind_some, ho, Option.toList_some, List.flatMap_singleton]
  rw [List.filterMap_eq_flatMap_toList, List.flatMap_assoc]
  exact List.flatMap_congr fun b _ => (hdeclared b).symm

end Nested

end Model

namespace Graph

open Model (Forest Nested OnlyRootsContribute)

variable {g g' k : Graph} {c : Change} {f id : FacadeId} {x y o : NodeId} {n : Node}
variable {role : FacetRole} {name : String} {nodes : List NodeId}

/-! ### Steps -/

/-- No admitted change adds a facet, or a member below a node. -/
theorem Step.nested (h : Step g c g') (hc : Admitted g c) (hn : Nested g.model) :
    Nested g'.model := by
  cases h with
  | register => exact hn
  | rename | document | mandate => exact hn.modifyNode _ fun _ => ⟨rfl, rfl, rfl, rfl, rfl⟩
  | grow hp _ kind name => exact hn.appendChild hp hc name
  | point => exact hn.modifyNode _ (Usage.Slot.samePlace_put _ _)
  | clear => exact hn.modifyNode _ (Usage.Slot.samePlace_put _ _)
  | detach => exact hn.without _ _

theorem Evolves.nested (h : Evolves Admitted g g') (hg : Nested g.model) : Nested g'.model :=
  h.keeps (I := fun g => Nested g.model) (fun hg hp hs => hs.nested hp hg) hg

/-! ### Facades that are inherited -/

/-- A facade is shown by inheritance if its node does not belong to that of the other one. -/
theorem Stands.isInherited_eq (h : g.Stands id y) (hn : g.model.node? y = some n)
    (hf : g.Stands f x) :
    g.isInherited id f = .ok (decide (g.model.holder? y ≠ some x)) := by
  obtain ⟨kind, he⟩ := h
  obtain ⟨kind', hf⟩ := hf
  rw [isInherited, content_of_entry he hn, Outcome.ok_bind, nodeOf_of_entry hf, Model.holder?, hn]
  rfl

/-- What a facet inherits from what bases declare in its role: of each name that none of its own
children has, the nearest declaration, and nothing else. -/
structure InheritsNearest (g : Graph) (f : FacadeId) (role : FacetRole) (own bases : List NodeId)
    (ids : List FacadeId) (k : Graph) : Prop where
  nodup : ids.Nodup
  ordered : (bases.flatMap (g.model.declared role)).Nodup ∧
    ∃ nodes, List.Forall₂ k.Stands ids nodes ∧
      nodes.Sublist (bases.flatMap (g.model.declared role))
  named : ∀ id ∈ ids, ∃ name, k.name id = .ok name ∧ ∀ c ∈ own, g.model.nodeName c ≠ .ok name
  nearest : ∀ name, (∀ c ∈ own, g.model.nodeName c ≠ .ok name) →
    (∃ b ∈ bases, ∃ d ∈ g.model.declared role b, g.model.nodeName d = .ok name) →
    ∃ id c, k.Stands id c ∧ g.model.NearestNamed role name bases c ∧
      ∀ id', id' ∈ ids ∧ k.name id' = .ok name ↔ id' = id
  undeclared : ∀ name,
    (∀ b ∈ bases, ∀ d ∈ g.model.declared role b, g.model.nodeName d ≠ .ok name) →
    ∀ id ∈ ids, k.name id ≠ .ok name
  inherited : ∀ id ∈ ids, k.isInherited id f = .ok true

/-- Of what bases declare, the nearest of each name is not hidden, unless an own child has it. -/
theorem mem_unhidden_declared_iff {m : Model} {own : List String} {bases : List NodeId}
    (hn : m.node? x = some n) (hown : m.childNames x = .ok own)
    (h : unhidden m own (bases.flatMap (m.declared role)) = .ok nodes)
    (hname : m.nodeName y = .ok name) :
    y ∈ nodes ↔ (∀ c ∈ n.children, m.nodeName c ≠ .ok name) ∧
      m.NearestNamed role name bases y := by
  rw [mem_unhidden_iff h hname, Model.nearestNamed_iff_firstNamed,
    Model.mem_childNames_iff hn hown]
  push Not
  rfl

section facets

variable (hg : Managed g) (h : g.Stands f x) (hn : g.model.node? x = some n)
include hg h hn

/-- All that a facet inherits has a facade: nothing else is below facets. -/
theorem exists_inherited_of_facet (hnested : Nested g.model) (ho : n.owner = some o)
    (hkind : n.kind = .facet role) :
    ∃ ids k nodes, inheritedChildren f g = .ok ids k ∧ Evolves IsRegister g k ∧
      List.Forall₂ k.Stands ids nodes ∧
      nodes.Sublist ((g.model.baseChain o).flatMap (g.model.declared role)) ∧
      ∀ {y name}, g.model.nodeName y = .ok name →
        (y ∈ nodes ↔ (∀ c ∈ n.children, g.model.nodeName c ≠ .ok name) ∧
          g.model.NearestNamed role name (g.model.baseChain o) y) := by
  obtain ⟨ids, k, nodes, hrun, hev, ⟨kind, own, hfacet, hown, hunhidden⟩, hids⟩ :=
    exists_inheritedChildren hg h
  rw [Model.facadeKind?_of_node? hn, hkind] at hfacet
  obtain rfl := Option.some.inj hfacet
  rw [hnested.offered_facet hg.forest hn ho] at hunhidden
  have hsub := sublist_of_unhidden hunhidden
  rw [eraseDups_of_nodup (nodup_of_unhidden hunhidden),
    Model.facedAmong_eq_self fun y hy => ?faced] at hids
  case faced =>
    obtain ⟨b, -, hy⟩ := List.mem_flatMap.mp (hsub.subset hy)
    obtain ⟨_, _, _, hy, hyo, -⟩ := hg.forest.owner_of_mem_declared hy
    exact hnested.faced hy hyo
  exact ⟨ids, k, nodes, hrun, hev, hids, hsub, mem_unhidden_declared_iff hn hown hunhidden⟩

/-- A facet inherits the nearest declarations along the chain of bases of its object. -/
theorem exists_inheritsNearest (hnested : Nested g.model) (hroots : OnlyRootsContribute g.model)
    (ho : n.owner = some o) (hkind : n.kind = .facet role) :
    ∃ ids k, inheritedChildren f g = .ok ids k ∧
      InheritsNearest g f role n.children (g.model.baseChain o) ids k := by
  obtain ⟨ids, k, nodes, hrun, hev, hids, hsub, hmem⟩ :=
    exists_inherited_of_facet hg h hn hnested ho hkind
  have hk := hev.managed hg
  have hdeclared : ((g.model.baseChain o).flatMap (g.model.declared role)).Nodup :=
    hg.forest.nodup_declared (Model.nodup_baseChain ..)
  -- What an inherited facade stands for, and the names of both.
  have stands {id : FacadeId} (hid : id ∈ ids) : ∃ y ∈ nodes, k.Stands id y ∧
      ∀ name, k.name id = .ok name ↔ g.model.nodeName y = .ok name := by
    obtain ⟨y, hy, hstands⟩ := exists_right_of_mem hids hid
    exact ⟨y, hy, hstands, fun name => hev.model_eq ▸ hstands.name_eq_ok_iff⟩
  have node {y : NodeId} (hy : y ∈ nodes) : ∃ b ∈ g.model.baseChain o, ∃ l,
      y ∈ g.model.declared role b ∧ g.model.node? y = some l := by
    obtain ⟨b, hb, hyb⟩ := List.mem_flatMap.mp (hsub.subset hy)
    obtain ⟨l, _, _, hl, -⟩ := hg.forest.owner_of_mem_declared hyb
    exact ⟨b, hb, l, hyb, hl⟩
  refine ⟨ids, k, hrun, ?_⟩
  constructor
  case nodup =>
    exact (List.rel_nodup (Stands.biUnique hk) hids).mpr (hdeclared.sublist hsub)
  case ordered => exact ⟨hdeclared, nodes, hids, hsub⟩
  case named =>
    intro id hid
    obtain ⟨y, hy, -, hname⟩ := stands hid
    obtain ⟨_, -, _, -, hl⟩ := node hy
    obtain ⟨name, hyname⟩ := hg.forest.exists_nodeName hl
    exact ⟨name, (hname name).mpr hyname, ((hmem hyname).mp hy).1⟩
  case nearest =>
    rintro name hfree ⟨b, hb, d, hd, hdname⟩
    obtain ⟨c, hc⟩ := Model.exists_nearestNamed hb hd hdname
    obtain ⟨id, hid, hstands⟩ := exists_left_of_mem hids ((hmem hc.nodeName_eq).mpr ⟨hfree, hc⟩)
    refine ⟨id, c, hstands, hc, fun id' => ⟨?_, ?_⟩⟩
    · rintro ⟨hid', hname'⟩
      obtain ⟨y, hy, hstands', hname⟩ := stands hid'
      obtain rfl := ((hmem ((hname name).mp hname')).mp hy).2.unique hc
      exact hstands'.facade_unique hk hstands
    · rintro rfl
      exact ⟨hid, hstands.name_eq_ok_iff.mpr (hev.model_eq ▸ hc.nodeName_eq)⟩
  case undeclared =>
    intro name hnone id hid hidname
    obtain ⟨y, hy, -, hname⟩ := stands hid
    obtain ⟨b, hb, _, hyb, -⟩ := node hy
    exact hnone b hb y hyb ((hname name).mp hidname)
  case inherited =>
    intro id hid
    obtain ⟨y, hy, hstands, -⟩ := stands hid
    obtain ⟨b, hb, l, hyb, hl⟩ := node hy
    rw [hstands.isInherited_eq (hev.model_eq ▸ hl) (h.of_evolves hev), hev.model_eq]
    exact congrArg Except.ok
      (decide_eq_true (hroots.holder?_of_mem_declared hg.forest hn ho hb hyb))

/-- Nothing that is listed under a facade is shown there by inheritance. -/
theorem exists_own_children (hroots : OnlyRootsContribute g.model) :
    ∃ kids k, children f g = .ok kids k ∧ ∀ kid ∈ kids, k.isInherited kid f = .ok false := by
  obtain ⟨kids, k, hrun, hev, hkids⟩ := exists_children hg h
  refine ⟨kids, k, hrun, fun kid hkid => ?_⟩
  obtain ⟨y, hy, hstands⟩ := exists_right_of_mem hkids hkid
  obtain ⟨l, -, hl, -⟩ := hstands.entry (hev.managed hg)
  rw [hstands.isInherited_eq hl (h.of_evolves hev), hev.model_eq,
    hroots.holder?_of_mem_listedUnder hg.forest hn hy]
  exact congrArg Except.ok (decide_eq_false fun hne => hne rfl)

end facets

end Graph

namespace Snapshot

open SchemaEditor.Graph (InheritsNearest evolves_after exists_ofModel)

variable {s : Snapshot} {loaded : Loaded}

/-- In a graph over the model of a snapshot, whatever was asked of it, every facade of a facet stands
for a facet of some object, and inherits the nearest declarations along the chain of bases of that
object, whether or not they run in a circle. What is listed under the facade itself is not
inherited. -/
theorem inheritance_resolves_nearest (h : s.load = .ok loaded) (v : Versioning) :
    ∃ g, Graph.ofModel loaded.model v = .ok g ∧ ∀ (calls : List Graph.Call) f role,
      (g.after calls).kind f = .ok (.facet role) →
      ∃ x n owner ids k kids k', (g.after calls).nodeOf f = .ok x ∧
        (g.after calls).model.node? x = some n ∧ n.owner = some owner ∧
        Graph.inheritedChildren f (g.after calls) = .ok ids k ∧
        InheritsNearest (g.after calls) f role n.children
          ((g.after calls).model.baseChain owner) ids k ∧
        Graph.children f (g.after calls) = .ok kids k' ∧
        ∀ kid ∈ kids, k'.isInherited kid f = .ok false := by
  obtain ⟨_, hgraph, hg⟩ := exists_ofModel (whole_of_load h).forest v
  refine ⟨_, hgraph, fun calls f role hkind => ?_⟩
  have hev := evolves_after hg calls
  have hafter := hev.managed hg
  have hroots := hev.onlyRootsContribute (onlyRootsContribute_of_load h)
  obtain ⟨e, he, hek⟩ := Outcome.bind_eq_ok_iff.mp hkind
  obtain ⟨x, kind⟩ := e
  have he := Graph.entry_eq_ok_iff.mp he
  obtain rfl := Except.ok.inj hek
  obtain ⟨n, hn, hnk⟩ := Model.facadeKind?_eq_some_iff.mp (hafter.facades.known he)
  have hfacet := Facade.Kind.ofNode?_eq_facet_iff.mp hnk
  obtain ⟨owner, -, ho, -⟩ := hev.layered (layered_of_load h) x n hn (by rw [hfacet]; rfl)
  obtain ⟨ids, k, hrun, hnearest⟩ := Graph.exists_inheritsNearest hafter ⟨_, he⟩ hn
    (hev.nested (nested_of_load h)) hroots ho hfacet
  obtain ⟨kids, k', hrun', hkids⟩ := Graph.exists_own_children hafter ⟨_, he⟩ hn hroots
  exact ⟨x, n, owner, ids, k, kids, k', Graph.nodeOf_of_entry he, hn, ho, hrun, hnearest, hrun',
    hkids⟩

/-- Three objects whose bases run in a circle, with some names in common. -/
def pricedInCircle : Snapshot :=
  shop
    [{ Member.object "Order" none [⟨.property .element, "Total", none, false, ""⟩] with
        baseKey := some "Offer" },
      { Member.object "Offer" none
          [⟨.property .element, "Price", none, false, ""⟩,
            ⟨.property .element, "Total", none, false, ""⟩] with
        baseKey := some "Quote" },
      { Member.object "Quote" none
          [⟨.property .element, "Date", none, false, ""⟩,
            ⟨.property .element, "Price", none, false, ""⟩] with
        baseKey := some "Order" }]

/-- The summary of the order inherits the price of the nearer base and the date of the farther one,
and no total. -/
theorem inheritance_resolves_nearest_pricedInCircle :
    ∃ loaded g, pricedInCircle.load = .ok loaded ∧
      Graph.ofModel loaded.model (.chain none) = .ok g ∧
      let opened := g.after [.facadeFor ⟨2⟩]
      opened.kind ⟨0⟩ = .ok (.facet .summary) ∧ opened.model.OnBaseCycle ⟨0⟩ ∧
      ∃ x n owner ids k kids k', opened.nodeOf ⟨0⟩ = .ok x ∧
        opened.model.node? x = some n ∧ n.owner = some owner ∧
        Graph.inheritedChildren ⟨0⟩ opened = .ok ids k ∧
        ids.map k.name = [.ok "Price", .ok "Date"] ∧
        InheritsNearest opened ⟨0⟩ .summary n.children (opened.model.baseChain owner) ids k ∧
        Graph.children ⟨0⟩ opened = .ok kids k' ∧
        ∀ kid ∈ kids, k'.isInherited kid ⟨0⟩ = .ok false := by
  obtain ⟨loaded, g, hload, hgraph, hp⟩ := exists_graph (s := pricedInCircle) (v := .chain none)
    (p := fun g =>
      let opened := g.after [.facadeFor ⟨2⟩]
      decide (opened.kind ⟨0⟩ = .ok (.facet .summary) ∧ opened.model.OnBaseCycle ⟨0⟩) &&
        match Graph.inheritedChildren ⟨0⟩ opened with
        | .ok ids k => decide (ids.map k.name = [.ok "Price", .ok "Date"])
        | .error _ _ => false) (by decide +kernel)
  obtain ⟨hopened, hnames⟩ := (Bool.and_eq_true _ _).mp hp
  obtain ⟨hkind, hcycle⟩ := of_decide_eq_true hopened
  obtain ⟨_, hgraph', hall⟩ := inheritance_resolves_nearest hload (.chain none)
  obtain rfl := Except.ok.inj (hgraph'.symm.trans hgraph)
  obtain ⟨x, n, owner, ids, k, kids, k', hnode, hn, ho, hrun, hnearest, hkids⟩ :=
    hall [.facadeFor ⟨2⟩] ⟨0⟩ .summary hkind
  rw [hrun] at hnames
  exact ⟨loaded, _, hload, hgraph, hkind, hcycle, x, n, owner, ids, k, kids, k', hnode, hn, ho, hrun,
    of_decide_eq_true hnames, hnearest, hkids⟩

end Snapshot

end SchemaEditor
