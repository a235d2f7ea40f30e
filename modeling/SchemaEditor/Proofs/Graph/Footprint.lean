import SchemaEditor.Proofs.Graph.NameConsistency
import SchemaEditor.Proofs.Graph.Spare

/-!
# What edits leave behind

The arena grows by growth only, and only detaching takes marks away; whatever a facade stands for,
it stands for ever. So an addition leaves one more node, the next one of the arena, and a deletion
clears exactly the marks of the nodes it gives. A name that was given is the name afterwards,
because no name follows on the node that it was given to.
-/

namespace SchemaEditor

namespace Graph

open Model (Extends Forest Under)
open Outcome (bind_ok)

variable {P : Graph → Change → Prop} {g g₁ g₂ g' : Graph} {c : Change} {id facade : FacadeId}
variable {e : Facade.Entry} {node owner x p : NodeId} {n : Node} {kind : NodeKind} {name : String}

/-! ### Steps -/

namespace Step

theorem size_eq (h : Step g c g') (hc : ∀ owner kind name, c ≠ .grow owner kind name) :
    g'.model.nodes.size = g.model.nodes.size := by
  cases h with
  | register => rfl
  | rename | document | mandate | point | clear => exact Model.modifyNode_size _ _ _
  | grow _ _ kind name => exact absurd rfl (hc _ kind name)
  | detach => exact Model.size_of_node?_map (Model.node?_without _ _ _)

theorem size_of_grow (h : Step g (.grow owner kind name) g') :
    g'.model.nodes.size = g.model.nodes.size + 1 := by
  cases h
  rw [Model.appendChild_snd, Model.modifyNode_size, Model.pushed_size]

theorem attached_eq (h : Step g c g') (hc : ∀ x, c ≠ .detach x)
    (hn : g.model.node? x = some n) :
    ∃ n', g'.model.node? x = some n' ∧ n'.attached = n.attached := by
  have modified {id : NodeId} {f : Node → Node} (hf : ∀ n, (f n).attached = n.attached) :
      ∃ n', (g.model.modifyNode id f).node? x = some n' ∧ n'.attached = n.attached := by
    rw [Model.node?_modifyNode, hn]
    split
    · exact ⟨f n, rfl, hf n⟩
    · exact ⟨n, rfl, rfl⟩
  cases h with
  | register => exact ⟨n, hn, rfl⟩
  | rename | document | mandate => exact modified fun _ => rfl
  | grow hp =>
    obtain ⟨cs, -, hcs⟩ := Model.exists_node?_appendChild hp hn _ _ _
    exact ⟨_, hcs, rfl⟩
  | point | clear => exact modified fun n => (Usage.Slot.samePlace_put _ _ n).attached
  | @detach node => exact absurd rfl (hc node)

theorem entry?_eq (h : Step g c g') (he : g.facades.entry? id = some e) :
    g'.facades.entry? id = some e := by
  cases h with
  | register _ hfree => exact (Facade.Registry.Continues.insert hfree _).entry he
  | _ => exact he

end Step

namespace Evolves

theorem size_eq (h : Evolves P g g') (hP : ∀ {k owner kind name}, ¬ P k (.grow owner kind name)) :
    g'.model.nodes.size = g.model.nodes.size :=
  h.keeps (I := fun k => k.model.nodes.size = g.model.nodes.size)
    (fun hk hp hs => (hs.size_eq fun _ _ _ hc => hP (hc ▸ hp)).trans hk) rfl

theorem attached_eq (h : Evolves P g g') (hP : ∀ {k x}, ¬ P k (.detach x))
    (hn : g.model.node? x = some n) :
    ∃ n', g'.model.node? x = some n' ∧ n'.attached = n.attached := by
  refine h.keeps (I := fun k => ∃ n', k.model.node? x = some n' ∧ n'.attached = n.attached)
    (fun hk hp hs => ?_) ⟨n, hn, rfl⟩
  obtain ⟨n', hn', ha⟩ := hk
  obtain ⟨n'', hn'', ha'⟩ := hs.attached_eq (fun _ hc => hP (hc ▸ hp)) hn'
  exact ⟨n'', hn'', ha'.trans ha⟩

theorem isAttached (h : Evolves P g g') (hP : ∀ {k x}, ¬ P k (.detach x))
    (hx : g.model.IsAttached x) : g'.model.IsAttached x := by
  obtain ⟨n, hn, ha⟩ := hx
  obtain ⟨n', hn', ha'⟩ := h.attached_eq hP hn
  exact ⟨n', hn', ha'.trans ha⟩

theorem entry?_eq (h : Evolves P g g') (he : g.facades.entry? id = some e) :
    g'.facades.entry? id = some e :=
  h.keeps (I := fun k => k.facades.entry? id = some e) (fun hk _ hs => hs.entry?_eq hk) he

end Evolves

/-! ### Additions -/

/-- The facade is that of the one node that is new, and this is below another node. -/
structure Adds (g g' : Graph) (node : NodeId) (facade : FacadeId) : Prop where
  size_eq : g'.model.nodes.size = g.model.nodes.size + 1
  entry : ∃ kind, g'.facades.entry? facade = some ⟨g.model.nextId, kind⟩
  under : Under g'.model node g.model.nextId

/-- A node grows, nothing else does, and the new node gets a facade. -/
theorem adds_of_grow {k : Facade.Kind} (hu : Under g.model node owner)
    (hstep : Step g (.grow owner kind name) g₁) (hev : Evolves P g₁ g')
    (hP : ∀ {k owner kind name}, ¬ P k (.grow owner kind name))
    (he : g'.facades.entry? facade = some ⟨g.model.nextId, k⟩) : Adds g g' node facade := by
  refine ⟨?_, ⟨k, he⟩, ?_⟩
  · rw [hev.size_eq hP, hstep.size_of_grow]
  · have hu₁ := hu.of_extends hstep.extends_
    cases hstep with
    | @grow _ p hp =>
      have hnew :=
        (Model.node?_appendChild hp p.library kind name g.model.nextId).trans (if_pos rfl)
      exact (Under.owned hnew rfl hu₁).of_extends hev.extends_

theorem addNamedChild_adds {k : Facade.Kind} (hg : Managed g)
    (hnode : g.attachedNode id = .ok node) (hk : Facade.Kind.ofNode? kind = some k)
    (h : addNamedChild id kind name g = .ok facade g') : Adds g g' node facade := by
  obtain ⟨_, _, -, -, hstep, hev, he⟩ := steps_of_addNamedChild hg hnode hk h
  exact adds_of_grow .self hstep hev nofun he

/-! ### Deletions -/

/-- A deletion takes the marks of exactly the nodes that it gives. -/
theorem delete_detaches {nodes : List NodeId} (hg : Managed g)
    (hnode : g.attachedNode id = .ok node) (h : delete id g = .ok nodes g') :
    nodes.Nodup ∧ ∀ x, x ∈ nodes ↔ g.model.IsAttached x ∧ ¬ g'.model.IsAttached x := by
  obtain ⟨g₁, _, hrun, hev, hstep⟩ := delete_eq hg hnode
  obtain ⟨rfl, rfl⟩ := EStateM.Result.ok.inj (hrun.symm.trans h)
  obtain ⟨-, n, -, -, hn, ha⟩ := attachedNode_eq_ok_iff.mp hnode
  have hbelow : g₁.model.preorder node = g.model.preorder node :=
    hg.forest.preorder_congr (hev.managed hg).forest
      (fun hx => hev.samePlace_of_clearsBelow hx) hn
  refine ⟨hg.forest.nodup_preorder hn, fun x => ⟨fun hx => ?_, fun ⟨hattached, hgone⟩ => ?_⟩⟩
  · obtain ⟨-, k, hk⟩ := hg.forest.under_of_mem_preorder hn hx
    refine ⟨⟨k, hk, hg.forest.attached_of_mem_preorder hn ha hx hk⟩, ?_⟩
    rintro ⟨k', hk', hka'⟩
    cases hstep
    obtain ⟨k₁, -, rfl⟩ := Model.without_cases hk'
    exact (Node.attached_cut.mp hka').2 (hbelow ▸ hx)
  · by_contra hx
    obtain ⟨k₁, hk₁, hka₁⟩ : g₁.model.IsAttached x :=
      hev.isAttached (fun ⟨_, hc, _⟩ => nomatch hc) hattached
    cases hstep
    exact hgone ⟨_, Model.node?_without_of_node? hk₁ _ _,
      Node.attached_cut.mpr ⟨hka₁, hbelow ▸ hx⟩⟩

/-! ### References -/

theorem Step.reference?_of_point {r : Usage.Reference} (h : Step g (.point r p) g') :
    g'.model.reference? r = some p := by
  cases h with
  | point hn ha =>
    show Model.reference? (Model.modifyNode _ _ _) r = _
    rw [Model.reference?_write hn ha, Function.update_self]

end Graph

/-! ### Names -/

/-- Nodes of the kinds that may be renamed have the names they were given. -/
theorem NodeKind.ending?_of_naming? {kind : NodeKind} {k : Facade.Kind} {rule : Naming.Rule}
    (h : Facade.Kind.ofNode? kind = some k) (hk : k.naming? = some rule) :
    kind.ending? = none := by
  cases kind with
  | facet | actionRequest | actionResponse =>
    cases h
    cases hk
  | _ => rfl

/-- Whether a name follows a type does not depend on names. -/
theorem Model.Extends.followedName?_ne {m m' : Model} {user : Facade.Kind} {p : NodeId}
    (h : Extends m m') (hnone : m.followedName? user p = .ok none) (name : String) :
    m'.followedName? user p ≠ .ok (some name) := by
  unfold followedName? at hnone ⊢
  cases hproperty : user.property? with
  | none => simp
  | some property =>
    simp only [hproperty] at hnone
    obtain ⟨_, -, hnone⟩ := Outcome.bind_eq_ok_iff.mp hnone
    intro hsome
    obtain ⟨_, -, hsome⟩ := Outcome.bind_eq_ok_iff.mp hsome
    by_cases hrule : property.profile.naming = .fromType
    · rw [if_pos hrule] at hnone
      cases hnone
    · rw [if_neg hrule] at hnone hsome
      obtain ⟨n, hn, hnone⟩ := Outcome.bind_eq_ok_iff.mp hnone
      obtain ⟨n', hn', hsome⟩ := Outcome.bind_eq_ok_iff.mp hsome
      obtain ⟨k, hk, hkind, -⟩ := h.same (node_eq_ok_iff.mp hn)
      obtain rfl := Option.some.inj (hk.symm.trans (node_eq_ok_iff.mp hn'))
      rw [hkind] at hsome
      have hnone := Except.ok.inj hnone
      have hsome := Except.ok.inj hsome
      split at hsome
      · next hfollows =>
        rw [if_pos hfollows] at hnone
        cases hnone
      · cases hsome

/-- A name that follows no node still follows none when there are more nodes. -/
theorem Model.Extends.followedName?_none {m m' : Model} {user : Facade.Kind} {p : NodeId}
    (h : Extends m m') (hf : Forest m') (hnone : m.followedName? user p = .ok none) :
    m'.followedName? user p = .ok none := by
  cases hproperty : user.property? with
  | none => rw [followedName?, hproperty]
  | some property =>
    have hnamed := hnone
    simp only [followedName?, hproperty] at hnamed
    obtain ⟨_, hname, -⟩ := Outcome.bind_eq_ok_iff.mp hnamed
    obtain ⟨n, hn⟩ := exists_node?_of_nodeName hname
    obtain ⟨n', hn', -⟩ := h.same hn
    obtain ⟨name?, hname⟩ := hf.exists_followedName? hn' user
    cases name? with
    | none => exact hname
    | some name => exact absurd hname (h.followedName?_ne hnone name)

namespace Graph

open Model (Extends Forest Under)

variable {g g₁ g' : Graph} {id : FacadeId} {x : NodeId} {n : Node} {rule : Naming.Rule}
variable {providers : List NodeId} {name after : String}

theorem naming?_of_givenNameRule {e : Facade.Entry} (hg : Managed g)
    (he : g.facades.entry? id = some e) (h : g.givenNameRule id = .ok rule) :
    e.kind.naming? = some rule := by
  obtain ⟨e', he', hnaming, -⟩ := (givenNameRule_eq_ok_iff hg).mp h
  obtain rfl := Option.some.inj (he.symm.trans he')
  exact hnaming

/-- A node keeps its name while others follow, if its own name follows no type. -/
theorem Evolves.keepsName (h : Evolves (Follows providers) g₁ g')
    (hext : Extends g.model g₁.model)
    (hrefs : ∀ r, g₁.model.reference? r = g.model.reference? r)
    (hfree : ∀ p, g.model.reference? ⟨x, .type⟩ = some p →
      ∃ kind, g.model.facadeKind? x = some kind ∧ g.model.followedName? kind p = .ok none)
    (hn : g₁.model.node? x = some n) :
    ∃ n', g'.model.node? x = some n' ∧ n'.kind = n.kind ∧ n'.name = n.name := by
  refine (h.keeps (I := fun k => Extends g.model k.model ∧
    (∀ r, k.model.reference? r = g.model.reference? r) ∧
    ∃ n', k.model.node? x = some n' ∧ n'.kind = n.kind ∧ n'.name = n.name)
    (fun {k c k'} hk hc hs => ?_) ⟨hext, hrefs, n, hn, rfl, rfl⟩).2.2
  obtain ⟨hext, hrefs, n', hn', hkept⟩ := hk
  have hrefs' := ((Evolves.single hc hs).of_isRename fun _ _ => Follows.isRename).2.2
  refine ⟨hext.trans hs.extends_, fun r => (hrefs' r).trans (hrefs r), ?_⟩
  obtain ⟨user, p, kind, name, rfl, -, href, hkind, hfollowed⟩ := hc
  have hne : x ≠ user := by
    rintro rfl
    obtain ⟨kind', hkind', hnone⟩ := hfree p ((hrefs _).symm.trans href)
    obtain rfl := Option.some.inj ((hext.facadeKind? hkind').symm.trans hkind)
    exact hext.followedName?_ne hnone name hfollowed
  cases hs
  exact ⟨n', (Model.node?_modifyNode ..).trans ((if_neg hne).trans hn'), hkept⟩

/-- The name that was given is stored in the form of the kind of the node. -/
theorem stored_of_setName (hg : Managed g) (h : setName id name g = .ok after g') :
    ∃ node n n' rule, g.attachedNode id = .ok node ∧ g.model.node? node = some n ∧
      g.givenNameRule id = .ok rule ∧ after = rule.apply (Text.trim name) ∧
      g'.model.node? node = some n' ∧ n'.kind = n.kind ∧ n'.name = after := by
  obtain ⟨err, hrun⟩ | ⟨node, n, rule, hnode, hn, hrule, hname⟩ := setName_cases g id name
  · cases hrun.symm.trans h
  obtain ⟨g₁, k, hrun, hstep, hev, -⟩ := setName_steps hg hnode hn hrule hname
  obtain ⟨rfl, rfl⟩ := EStateM.Result.ok.inj (hrun.symm.trans h)
  have hrefs := ((Evolves.single (P := IsRename) ⟨_, _, rfl⟩ hstep).of_isRename
    fun _ _ hc => hc).2.2
  have hrenamed : ∃ n₁, g₁.model.node? node = some n₁ ∧ n₁.kind = n.kind ∧
      n₁.name = rule.apply (Text.trim name) := by
    cases hstep
    exact ⟨_, (Model.node?_modifyNode_self ..).trans (congrArg _ hn), rfl, rfl⟩
  obtain ⟨n₁, hn₁, hkind₁, hname₁⟩ := hrenamed
  -- The name of the node follows no type, or it could not be given.
  obtain ⟨n', hn', hkind', hname'⟩ := hev.keepsName hstep.extends_ hrefs
    (fun p hp => followedName?_of_givenNameRule hg hnode hrule hp) hn₁
  exact ⟨node, n, n', rule, hnode, hn, hrule, rfl, hn', hkind'.trans hkind₁, hname'.trans hname₁⟩

/-- The name that was given is the name afterwards. -/
theorem name_of_setName (hg : Managed g) (h : setName id name g = .ok after g') :
    g'.name id = .ok after := by
  obtain ⟨node, n, n', rule, hnode, hn, hrule, -, hn', hkind', hname'⟩ := stored_of_setName hg h
  obtain ⟨e, _, he, rfl, -⟩ := attachedNode_eq_ok_iff.mp hnode
  have hending : n'.kind.ending? = none := by
    have hfacade := (Model.facadeKind?_of_node? hn).symm.trans (hg.facades.known he)
    rw [hkind']
    exact NodeKind.ending?_of_naming? hfacade (naming?_of_givenNameRule hg he hrule)
  have hev := (setName_atomic hg id name).left
  rw [left, h] at hev
  rw [Graph.name, nodeOf_of_entry (hev.entry?_eq he), Outcome.ok_bind,
    ofModelResult_of_ok (Model.nodeName_of_given hn' hending), hname']

end Graph

end SchemaEditor
