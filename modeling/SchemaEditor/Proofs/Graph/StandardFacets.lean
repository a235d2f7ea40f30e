import SchemaEditor.Proofs.Graph.Detached
import SchemaEditor.Proofs.Model.Equipment

/-!
# Standard facets of the objects of a graph

No call adds a facet to an object or an object below a node, and no call but a deletion detaches
anything: so an object is equipped with its standard facets until one of them is deleted, and the
container of its new properties is one of them. A deletion refuses no facet. It leaves the object
without a place for its properties.
-/

namespace SchemaEditor

namespace Model

variable {m m' : Model} {x c : NodeId} {n : Node} {role : FacetRole}

/-- Facets and roles depend on the places of nodes only. -/
theorem isFacetOf_of_samePlace (hf : Forest m)
    (hm : ∀ {y k}, m.node? y = some k → ∃ k', m'.node? y = some k' ∧ k.SamePlace k')
    (hn : m.node? c = some n) (h : m'.IsFacetOf x role c) :
    m.IsFacetOf x role c ∧ m'.standardRoles x = m.standardRoles x := by
  obtain ⟨n', hn', ho, hkind, ha⟩ := h
  obtain ⟨_, hc, hsame⟩ := hm hn
  obtain rfl := Option.some.inj (hn'.symm.trans hc)
  have ho := hsame.owner.symm.trans ho
  obtain ⟨p, hp⟩ := hf.owner_exists hn ho
  obtain ⟨p', hp', hsame'⟩ := hm hp
  refine ⟨⟨n, hn, ho, hsame.kind.symm.trans hkind, hsame.attached.symm.trans ha⟩, ?_⟩
  rw [standardRoles_of_node? hp, standardRoles_of_node? hp', hsame'.kind]

end Model

namespace Graph

open Model (Forest Op)
open Outcome (Occurs)

variable {g g' : Graph} {c : Change} {x node : NodeId} {n : Node} {id : FacadeId}

/-! ### Steps and calls -/

/-- An admitted change leaves a node its facets, unless it detaches one of them. -/
theorem Step.equipped (h : Step g c g') (hf : Forest g.model) (hc : Admitted g c)
    (hd : ∀ node, c = .detach node →
      ∀ role ∈ g.model.standardRoles x, ¬ g.model.IsFacetOf x role node)
    (hx : g.model.Equipped x) : g'.model.Equipped x := by
  cases h with
  | register => exact hx
  | rename | document | mandate => exact hx.modifyNode _ fun _ => ⟨rfl, rfl, rfl, rfl, rfl⟩
  | grow hp _ kind name =>
    refine hx.appendChild hp name (fun _ => NodeKind.standardFacets_of_not_isMember hc.2) ?_
    rintro - role - rfl
    cases hc.1
  | point => exact hx.modifyNode _ (Usage.Slot.samePlace_put _ _)
  | clear => exact hx.modifyNode _ (Usage.Slot.samePlace_put _ _)
  | detach hn => exact hx.without hf hn (hd _ rfl)

theorem Evolves.equipped (h : Evolves (Lossless Admitted) g g') (hf : Forest g.model)
    (hx : g.model.Equipped x) : g'.model.Equipped x :=
  (h.keeps (I := fun g => Forest g.model ∧ g.model.Equipped x)
    (fun hg hp hs => ⟨hs.forest hg.1,
      hs.equipped hg.1 hp.1 (fun node hc => absurd hc (hp.2 node)) hg.2⟩) ⟨hf, hx⟩).2

/-- A call deletes a standard facet of a node. -/
def Call.Strips (x : NodeId) (g : Graph) : Call → Prop
  | .delete id =>
    ∃ node, g.nodeOf id = .ok node ∧
      ∃ role ∈ g.model.standardRoles x, g.model.IsFacetOf x role node
  | _ => False

/-- Deleting anything else leaves a node its facets, or takes the node as well. -/
theorem equipped_delete (hg : Managed g) (hx : g.model.Equipped x)
    (h : ¬ Call.Strips x g (.delete id)) : (left (delete id) g).model.Equipped x := by
  cases hnode : g.attachedNode id with
  | error err =>
    rw [left, delete, Outcome.bind_error (ask_of_error hnode)]
    exact hx
  | ok node =>
    obtain ⟨-, n, -, -, hn, -⟩ := attachedNode_eq_ok_iff.mp hnode
    obtain ⟨g₁, g', hrun, hev, hstep⟩ := delete_eq hg hnode
    have hlossless : Evolves (Lossless Admitted) g g₁ := by
      refine hev.mono fun _ _ hclears => ?_
      obtain ⟨r, rfl, -⟩ := hclears
      exact ⟨trivial, by rintro _ ⟨⟩⟩
    have hx₁ := hlossless.equipped hg.forest hx
    simp only [left, hrun]
    refine hstep.equipped (hev.managed hg).forest trivial (fun _ hc role hrole hfacet => h ?_) hx₁
    obtain rfl := Change.detach.inj hc
    obtain ⟨hfacet, hroles⟩ :=
      Model.isFacetOf_of_samePlace hg.forest hev.samePlace_of_clearsBelow hn hfacet
    exact ⟨_, nodeOf_of_attachedNode hnode, role, hroles ▸ hrole, hfacet⟩

theorem Call.equipped (hg : Managed g) {c : Call} (hx : g.model.Equipped x)
    (h : ¬ c.Strips x g) : (c.apply g).model.Equipped x := by
  by_cases hc : c.IsDelete
  · cases c with
    | delete id => exact equipped_delete hg hx h
    | _ => exact hc.elim
  · exact (evolves_of_not_isDelete hg hc).equipped hg.forest hx

/-- Whatever is asked of a graph, a node keeps its facets unless one of them is deleted. -/
theorem equipped_after (hg : Managed g) (hx : g.model.Equipped x) {calls : List Call}
    (h : ¬ Occurs Call.apply (Call.Strips x) g calls) : (g.after calls).model.Equipped x :=
  (Outcome.foldl_keeps (I := fun g => Managed g ∧ g.model.Equipped x)
    (fun {_ c} _ ⟨hg, hx⟩ h => ⟨(c.evolves hg).managed hg, c.equipped hg hx h⟩) ⟨hg, hx⟩ h).2

/-- No facet is refused deletion: its object stays attached, without a facet in the role. -/
theorem delete_facet (hg : Managed g) (ha : g.model.IsAttached x) {role : FacetRole}
    (hfacet : g.model.IsFacetOf x role node)
    (honly : ∀ c, g.model.IsFacetOf x role c → c = node) (hid : g.nodeOf id = .ok node) :
    ∃ gone g', delete id g = .ok gone g' ∧ g'.model.IsAttached x ∧
      ∀ c, ¬ g'.model.IsFacetOf x role c := by
  have ⟨k, hk, ho, _, hka⟩ := hfacet
  obtain ⟨e, he, rfl⟩ := nodeOf_eq_ok_iff.mp hid
  have hnode : g.attachedNode id = .ok e.node := attachedNode_eq_ok_iff.mpr ⟨e, k, he, rfl, hk, hka⟩
  obtain ⟨_, g', hrun, hev, hstep⟩ := delete_eq hg hnode
  have hext := hev.extends_.trans hstep.extends_
  refine ⟨_, g', hrun, by_contra fun hx => ?_, fun c hc => ?_⟩
  · -- Below the facet there are only later nodes, and the object came before.
    have ⟨n, hn, _⟩ := ha
    obtain ⟨n', hn', -⟩ := hext.same hn
    obtain hx | hx := (isDetached_delete_iff hg hrun).mp (Model.isDetached_of_not_isAttached hn' hx)
    · exact hx.not_isAttached ha
    · exact Nat.not_lt.mpr (hg.forest.le_of_under (hg.forest.under_of_mem_preorder hk hx).1)
        (hg.forest.owner_lt hk ho)
  · obtain ⟨k', hk', ho', hkind', hka'⟩ := hc
    have hleft : ¬ g'.model.IsDetached c := fun hd => hd.not_isAttached ⟨k', hk', hka'⟩
    rw [isDetached_delete_iff hg hrun, not_or] at hleft
    obtain ⟨d, hd⟩ := (exists_node?_delete_iff hg hrun).mp ⟨k', hk'⟩
    obtain ⟨_, hd', hkind, howner, -⟩ := hext.same hd
    obtain rfl := Option.some.inj (hd'.symm.trans hk')
    have hda : d.attached = true := by
      by_contra hda
      exact hleft.1 ⟨d, hd, Bool.eq_false_iff.mpr hda⟩
    obtain rfl := honly c ⟨d, hd, howner.symm.trans ho', hkind.symm.trans hkind', hda⟩
    exact hleft.2 (hg.forest.mem_preorder_self hk)

/-! ### Where properties are added -/

/-- The properties of an equipped object are added to one of its facets. -/
theorem propertyContainer?_of_equipped (hg : Managed g) (hx : g.model.Equipped x)
    (hn : g.model.node? x = some n) (ha : n.attached = true) (hobject : n.kind.standardFacets ≠ [])
    (hid : g.nodeOf id = .ok x) :
    ∃ role ∈ n.kind.standardFacets, ∃ c,
      g.propertyContainer? id = .ok (some c) ∧ g.model.IsFacetOf x role c := by
  generalize hquery : g.propertyContainer? id = container?
  have container (role : FacetRole) (hrole : role ∈ n.kind.standardFacets)
      (h : container? = .ok (g.model.facet? x role)) :
      ∃ role ∈ n.kind.standardFacets, ∃ c,
        container? = .ok (some c) ∧ g.model.IsFacetOf x role c := by
    obtain ⟨c, hc, -⟩ := hx ⟨n, hn, ha⟩ role (Model.standardRoles_of_node? hn ▸ hrole)
    exact ⟨role, hrole, c, h.trans
      (congrArg Except.ok ((hx.facet?_eq_some_iff hg.forest hn ha hrole).mpr hc)), hc⟩
  obtain ⟨e, he, rfl⟩ := nodeOf_eq_ok_iff.mp hid
  have hkind := (Model.facadeKind?_of_node? hn).symm.trans (hg.facades.known he)
  rw [propertyContainer?, nodeOf_of_entry he, Outcome.ok_bind, kind_of_entry he] at hquery
  cases hk : n.kind with
  | member k =>
    rw [hk] at hkind container hobject
    obtain hk := Option.some.inj hkind
    rw [← hk] at hquery
    cases k with
    | businessObject => exact container .summary (by decide) hquery.symm
    | coreObject => exact container .summary (by decide) hquery.symm
    | choiceObject => exact container .shared (by decide) hquery.symm
    | _ => exact absurd rfl hobject
  | _ => exact absurd (congrArg NodeKind.standardFacets hk) hobject

/-! ### Whatever is done -/

/-- Whatever was done to a model, and whatever is asked of a graph over it, an attached object has
exactly one attached facet in each of its standard roles, and its properties are added to an attached
node, unless a facet was detached, deleted or added, or the object was created below a node. A
deletion of such a facet is possible, and leaves the object attached without one. -/
theorem objects_keep_facets_until_stripped (ops : List Op) (v : Versioning) :
    ∃ g, ofModel (Model.empty.after ops) v = .ok g ∧ ∀ (calls : List Call) (x : NodeId) (n : Node),
      (g.after calls).model.node? x = some n → n.attached = true →
        (Occurs Op.apply (Op.Strips x) .empty ops ∨ Occurs Call.apply (Call.Strips x) g calls ∨
          (∀ role ∈ n.kind.standardFacets,
            ∃! c, c ∈ n.children ∧ (g.after calls).model.IsFacetOf x role c) ∧
          (n.kind.standardFacets ≠ [] → ∀ id, (g.after calls).nodeOf id = .ok x →
            ∃ c, (g.after calls).propertyContainer? id = .ok (some c) ∧
              (g.after calls).model.IsAttached c)) ∧
        ∀ role ∈ n.kind.standardFacets,
          (∃! c, c ∈ n.children ∧ (g.after calls).model.IsFacetOf x role c) →
          ∀ id c, (g.after calls).nodeOf id = .ok c → (g.after calls).model.IsFacetOf x role c →
            ∃ gone g', delete id (g.after calls) = .ok gone g' ∧ g'.model.IsAttached x ∧
              ∀ c, ¬ g'.model.IsFacetOf x role c := by
  have hf := Forest.empty.after ops
  obtain ⟨_, hgraph, hg⟩ := exists_ofModel hf v
  refine ⟨_, hgraph, fun calls x n hn ha => ?_⟩
  have hafter := (evolves_after hg calls).managed hg
  constructor
  · refine or_iff_not_imp_left.mpr fun hops => or_iff_not_imp_left.mpr fun hcalls => ?_
    have hx := equipped_after hg (Model.Equipped.after (.of_standardRoles rfl) .empty hops) hcalls
    refine ⟨fun role hrole => ?_, fun hobject id hid => ?_⟩
    · obtain ⟨c, hc, honly⟩ := hx ⟨n, hn, ha⟩ role (Model.standardRoles_of_node? hn ▸ hrole)
      exact ⟨c, ⟨hafter.forest.mem_children_of_isFacetOf hn hc, hc⟩, fun c hc => honly c hc.2⟩
    · obtain ⟨role, -, c, hc, k, hk, -, -, hka⟩ :=
        propertyContainer?_of_equipped hafter hx hn ha hobject hid
      exact ⟨c, hc, k, hk, hka⟩
  · intro role _ hone id c hid hc
    exact delete_facet hafter ⟨n, hn, ha⟩ hc (fun c' hc' => hone.unique
      ⟨hafter.forest.mem_children_of_isFacetOf hn hc', hc'⟩
      ⟨hafter.forest.mem_children_of_isFacetOf hn hc, hc⟩) hid

/-- A library with an order. -/
def opsOfOrder : List Op :=
  [.addLibrary (.draft "Shop" "urn:shop"), .addMember ⟨0⟩ (.member .businessObject) "Order"]

/-- The order and its summary are looked up, and the order gets a property. -/
def callsOnOrder : List Call :=
  [.facadeFor ⟨0⟩, .facadeFor ⟨2⟩, .addProperty ⟨0⟩ .element (some "Total")]

/-- Before the order is added, an object is refused a place below a node that is not there. -/
def opsWithRefusal : List Op := .addChild ⟨5⟩ (.member .businessObject) "Offer" :: opsOfOrder

/-- The order has a place for further properties. -/
theorem facets_kept_callsOnOrder :
    ∃ g c, ofModel (Model.empty.after opsWithRefusal) (.chain none) = .ok g ∧
      (g.after callsOnOrder).propertyContainer? ⟨0⟩ = .ok (some c) ∧
      (g.after callsOnOrder).model.IsAttached c := by
  obtain ⟨g, hgraph, hkept⟩ := objects_keep_facets_until_stripped opsWithRefusal (.chain none)
  have hp : (ofModel (Model.empty.after opsWithRefusal) (.chain none)).toOption.any (fun g =>
      decide (((g.after callsOnOrder).model.node? ⟨0⟩).any (fun n =>
          n.attached ∧ n.kind = .member .businessObject) ∧
        ((g.after callsOnOrder).nodeOf ⟨0⟩).toOption = some ⟨0⟩)) = true := by decide +kernel
  rw [hgraph] at hp
  obtain ⟨hnode, hid⟩ := of_decide_eq_true hp
  obtain ⟨n, hn, hobject⟩ := (Option.any_eq_true _ _).mp hnode
  obtain ⟨ha, hk⟩ := of_decide_eq_true hobject
  obtain ⟨hops | hcalls | ⟨-, hcontainer⟩, -⟩ := hkept callsOnOrder ⟨0⟩ n hn ha
  · have hmissing : ¬ Model.empty.IsAttached ⟨5⟩ := fun ⟨k, hk, _⟩ => nomatch hk
    simp [opsWithRefusal, opsOfOrder, Outcome.occurs_cons, Outcome.not_occurs_nil, Op.Strips,
      hmissing] at hops
  · simp [callsOnOrder, Outcome.occurs_cons, Outcome.not_occurs_nil, Call.Strips] at hcalls
  · obtain ⟨c, hc⟩ := hcontainer (by rw [hk]; decide) ⟨0⟩ (Outcome.toOption_eq_some_iff.mp hid)
    exact ⟨g, c, hgraph, hc⟩

/-- The summary of the order is deleted. -/
def summaryDeleted : List Call := [.facadeFor ⟨0⟩, .facadeFor ⟨2⟩, .delete ⟨1⟩]

/-- The order is attached without a summary, and there is no container of its properties. -/
theorem order_without_summary :
    ∃ g, ofModel (Model.empty.after opsOfOrder) (.chain none) = .ok g ∧
      ((g.after summaryDeleted).model.node? ⟨0⟩).map (fun n => (n.kind, n.attached)) =
        some (.member .businessObject, true) ∧
      (∀ c, ¬ (g.after summaryDeleted).model.IsFacetOf ⟨0⟩ .summary c) ∧
      ((g.after summaryDeleted).nodeOf ⟨0⟩).toOption = some ⟨0⟩ ∧
      ((g.after summaryDeleted).propertyContainer? ⟨0⟩).toOption = some none := by
  have hp : (ofModel (Model.empty.after opsOfOrder) (.chain none)).toOption.any (fun g =>
      decide (((g.after summaryDeleted).model.node? ⟨0⟩).map (fun n => (n.kind, n.attached)) =
          some (.member .businessObject, true) ∧
        ((g.after summaryDeleted).model.nodeIds.all fun c =>
          ((g.after summaryDeleted).model.node? c).all fun k =>
            ¬ (k.kind = .facet .summary ∧ k.attached = true)) ∧
        ((g.after summaryDeleted).nodeOf ⟨0⟩).toOption = some ⟨0⟩ ∧
        ((g.after summaryDeleted).propertyContainer? ⟨0⟩).toOption = some none)) = true := by
    decide +kernel
  obtain ⟨g, hgraph, hp⟩ := (Option.any_eq_true _ _).mp hp
  obtain ⟨hnode, hnone, hid, hcontainer⟩ := of_decide_eq_true hp
  refine ⟨g, Outcome.toOption_eq_some_iff.mp hgraph, hnode, ?_, hid, hcontainer⟩
  rintro c ⟨k, hk, -, hkind, ha⟩
  have := List.all_eq_true.mp hnone c (Model.mem_nodeIds.mpr (Model.lt_of_node? hk))
  rw [hk, Option.all_some, decide_eq_true_eq] at this
  exact this ⟨hkind, ha⟩

end Graph

end SchemaEditor
