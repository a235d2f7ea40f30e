import SchemaEditor.Proofs.Action.Perform
import SchemaEditor.Proofs.Graph.Spare

/-!
# What requests leave alone

A request reaches out of its subject in two ways: names follow, which concerns properties only, and
references to what it deletes are cleared. So it spares every member but the one around its
subject, and that one too unless the change is structural.
-/

namespace SchemaEditor

/-- The facades of members stand for members. -/
theorem NodeKind.isMember_of_ofNode? {kind : NodeKind} {k : Facade.Kind}
    (h : Facade.Kind.ofNode? kind = some k) : kind.isMember = k.isMember := by
  cases kind <;> cases h <;> rfl

theorem Facade.Kind.isMember_of_isProperty {k : Facade.Kind} (h : k.isProperty = true) :
    k.isMember = false := by
  cases k with
  | member => exact absurd h Bool.false_ne_true
  | _ => rfl

namespace Graph

open Model (Forest Extends Under)

variable {g k : Graph} {c : Change} {id : FacadeId} {node top container : NodeId} {n t : Node}
variable {gone : NodeId → Prop} {providers : List NodeId} {kind : NodeKind} {name : String}

/-- A name that follows is that of a property, and a member is none. -/
theorem Follows.spares (hf : Forest k.model) (ht : k.model.node? top = some t)
    (hroot : t.owner = none) (h : Follows providers k c) : Spares top gone k c := by
  obtain ⟨user, provider, kind, name, rfl, -, -, hkind, hname⟩ := h
  rintro rfl
  obtain ⟨n, hn, hkind⟩ := Model.facadeKind?_eq_some_iff.mp hkind
  obtain rfl := Option.some.inj (ht.symm.trans hn)
  have hmember := (NodeKind.isMember_of_ofNode? hkind).symm.trans (hf.root_kind ht hroot)
  have hproperty := Model.isProperty_of_followedName? hname
  cases hmember.symm.trans (Facade.Kind.isMember_of_isProperty hproperty)

theorem GrowsBelow.spares (h : GrowsBelow container kind name node c) : Spares top gone k c := by
  obtain rfl | rfl := h
  · exact trivial
  · exact trivial

/-- Clearing the references of nodes outside of a member, and those to them. -/
theorem ClearsBelow.spares (hf : Forest g.model) (hext : Extends g.model k.model)
    (hn : g.model.node? node = some n) (ht : g.model.node? top = some t) (hroot : t.owner = none)
    (hout : ¬ Under g.model top node) (h : ClearsBelow (g.model.preorder node) k c) :
    Spares top (· ∈ g.model.preorder node) k c := by
  obtain ⟨r, rfl, hr⟩ := h
  intro hu p hp
  obtain hmem | hr := hr
  · obtain ⟨hup, u, hu'⟩ := hf.under_of_mem_preorder hn hmem
    exact absurd (.above ht hroot (hu.of_extended hf hext hu') hup) hout
  · exact hr p hp

/-! ### New properties -/

/-- The container of new properties is the subject or one of its children. -/
theorem under_of_propertyContainer? (hf : Forest g.model) (hnode : g.nodeOf id = .ok node)
    (h : g.propertyContainer? id = .ok (some container)) : Under g.model node container := by
  rw [propertyContainer?, hnode, Outcome.ok_bind] at h
  obtain ⟨kind, -, h⟩ := Outcome.bind_eq_ok_iff.mp h
  have facet (role : FacetRole) (h : g.model.facet? node role = some container) :
      Under g.model node container := by
    obtain ⟨n, hn, h⟩ := Option.bind_eq_some_iff.mp h
    obtain ⟨k, hk, ho, -⟩ := hf.owned hn (List.mem_of_find?_eq_some h)
    exact .owned hk ho .self
  split at h
  · exact Option.some.inj (Except.ok.inj h) ▸ .self
  · exact Option.some.inj (Except.ok.inj h) ▸ .self
  · exact Option.some.inj (Except.ok.inj h) ▸ .self
  · exact facet .summary (Except.ok.inj h)
  · exact facet .summary (Except.ok.inj h)
  · exact facet .shared (Except.ok.inj h)
  · cases h

theorem under_of_acceptingContainer? (hf : Forest g.model) (hnode : g.nodeOf id = .ok node)
    {kind : PropertyKind} (h : g.acceptingContainer? id kind = .ok (some container)) :
    Under g.model node container := by
  obtain ⟨container?, hc, h⟩ := Outcome.bind_eq_ok_iff.mp h
  cases container? with
  | none => cases h
  | some c =>
    obtain ⟨p, -, h⟩ := Outcome.bind_eq_ok_iff.mp h
    split at h
    · obtain rfl := Option.some.inj (Except.ok.inj h)
      exact under_of_propertyContainer? hf hnode hc
    · cases h

/-- A property that grew below a node outside of a member is outside of it. -/
theorem GrowsProperty.spares {kind : PropertyKind} (hf : Forest g.model)
    (hext : Extends g.model k.model) (hn : g.model.node? node = some n)
    (ht : g.model.node? top = some t) (hroot : t.owner = none)
    (hadded : ∀ {x n}, k.model.node? x = some n → g.model.node? x = none → Under k.model node x)
    (hout : kind.profile.required = true → ¬ Under g.model top node)
    (h : GrowsProperty container kind g.model.nextId c) : Spares top gone k c := by
  obtain ⟨_, hgrow⟩ | ⟨hrequired, rfl⟩ := h
  · exact hgrow.spares
  · intro _ hu
    obtain ⟨t', ht', -, ho, -⟩ := hext.same ht
    cases hu with
    | self => exact Model.ne_nextId ht rfl
    | owned hx ho' hu =>
      have hbelow := hadded hx (Model.node?_nextId _)
      have hup := Under.above ht' (ho.trans hroot) (.owned hx ho' hu) hbelow
      exact hout hrequired (hup.of_extended hf hext hn)

end Graph

namespace Request

open SchemaEditor.Graph (Evolves Managed Spares GrowsProperty)
open Model (Forest Extends Under)
open Outcome (bind_eq_ok_iff)

variable {r : Request} {g g' : Graph} {node top : NodeId} {n t : Node}

/-- What a request may do to a member: nothing structural if its subject belongs to it. -/
def Tolerates (r : Request) (g : Graph) (node top : NodeId) : Prop :=
  Under g.model top node → r.action.changeClass r.param ≠ .structural

variable {gone : NodeId → Prop}

/-- A property of a required kind is mandatory, and adding it is structural. -/
theorem spares_addProperty (hg : Managed g) (hnode : g.nodeOf r.subject = .ok node)
    (hn : g.model.node? node = some n) (ht : g.model.node? top = some t) (hroot : t.owner = none)
    (hr : r.action = .addProperty) (hclass : r.Tolerates g node top)
    (h : Evolves (r.Makes g node) g g') : Evolves (Spares top gone) g g' := by
  have hmakes := h.mono (Q := fun _ c => ∃ kind container, r.param = some (.property kind) ∧
    Under g.model node container ∧ GrowsProperty container kind g.model.nextId c) fun k c hc => by
      simp only [Makes, hr] at hc
      obtain ⟨kind, container, hparam, hcontainer, hgrow⟩ := hc
      exact ⟨kind, container, hparam,
        Graph.under_of_acceptingContainer? hg.forest hnode hcontainer, hgrow⟩
  have hadded := hmakes.along_added fun {k owner kind name} hc => by
    obtain ⟨_, container, -, hu, ⟨_, hgrow | hgrow⟩ | ⟨-, hgrow⟩⟩ := hc
    · cases hgrow
      exact hu
    · cases hgrow
    · cases hgrow
  refine (hadded.along_extends hg.forest).mono fun k c hc => ?_
  obtain ⟨⟨⟨kind, container, hparam, -, hgrow⟩, hadded⟩, -, hext⟩ := hc
  refine hgrow.spares hg.forest hext hn ht hroot hadded fun hrequired hu => hclass hu ?_
  rw [hr, hparam, Action.changeClass, if_pos hrequired]

theorem Makes.spares {k : Graph} {c : Graph.Change} (hg : Managed g)
    (hn : g.model.node? node = some n) (ht : g.model.node? top = some t) (hroot : t.owner = none)
    (hclass : r.Tolerates g node top) (hr : r.action ≠ .addProperty) (hf : Forest k.model)
    (hext : Extends g.model k.model) (h : r.Makes g node k c) :
    Spares top (· ∈ r.removed g node) k c := by
  obtain ⟨action, subject, param⟩ := r
  obtain ⟨t', ht', -, ho, -⟩ := hext.same ht
  have hroot' := ho.trans hroot
  have hout (hs : action.changeClass param = .structural) : ¬ Under k.model top node :=
    fun hu => hclass (hu.of_extended hg.forest hext hn) hs
  cases action with
  | setName =>
    obtain ⟨name, rfl⟩ | ⟨providers, hfollows⟩ := h
    · rintro rfl
      exact hout rfl .self
    · exact hfollows.spares hf ht' hroot'
  | setDescription | setExample | setDeprecation =>
    obtain ⟨f, rfl⟩ := h
    trivial
  | setMandatory =>
    obtain ⟨mandatory, hparam, rfl⟩ := h
    rintro rfl
    replace hparam : param = some (.flag true) := hparam
    exact hout (by rw [hparam]; rfl)
  | assignType =>
    obtain ⟨p, rfl⟩ | ⟨providers, hfollows⟩ := h
    · exact hout rfl
    · exact hfollows.spares hf ht' hroot'
  | clearType | clearBaseType =>
    obtain rfl := h
    exact fun hu => absurd hu (hout rfl)
  | setBaseType =>
    obtain ⟨p, rfl⟩ := h
    exact hout rfl
  | addProperty => exact absurd rfl hr
  | addAlias | addEnumValue =>
    obtain ⟨name, hgrow⟩ := h
    exact hgrow.spares
  | deleteProperty | deleteAlias | deleteEnumValue =>
    obtain hclears | rfl := h
    · exact hclears.spares hg.forest hext hn ht hroot fun hu => hclass hu rfl
    · exact hout rfl

/-- A request spares every member that it changes nothing structural of. -/
theorem spares_of_makes (hg : Managed g) (hnode : g.attachedNode r.subject = .ok node)
    (ht : g.model.node? top = some t) (hroot : t.owner = none) (hclass : r.Tolerates g node top)
    (h : Evolves (r.Makes g node) g g') : Evolves (Spares top (· ∈ r.removed g node)) g g' := by
  obtain ⟨e, n, he, rfl, hn, -⟩ := Graph.attachedNode_eq_ok_iff.mp hnode
  by_cases hr : r.action = .addProperty
  · exact spares_addProperty hg (Graph.nodeOf_of_entry he) hn ht hroot hr hclass h
  · exact (h.along_extends hg.forest).mono fun k c ⟨hmakes, hf, hext⟩ =>
      hmakes.spares hg hn ht hroot hclass hr hf hext

/-! ### Libraries -/

/-- Only three actions detach a node, and that is the one of their subject. -/
theorem Makes.of_detach {k : Graph} {x : NodeId} (h : r.Makes g node k (.detach x)) :
    x = node ∧
      (r.action = .deleteProperty ∨ r.action = .deleteAlias ∨ r.action = .deleteEnumValue) := by
  obtain ⟨action, subject, param⟩ := r
  cases action <;>
    simp_all [Makes, Graph.Follows, Graph.GrowsBelow, GrowsProperty, Graph.ClearsBelow]

/-- What is deleted is a property, an alias or a value, and neither a member nor a facet. -/
theorem part_of_deletion (hg : Managed g) (hnode : g.attachedNode r.subject = .ok node)
    (hn : g.model.node? node = some n) (hreq : r.requirement g = .ok ⟨⟩)
    (hr : r.action = .deleteProperty ∨ r.action = .deleteAlias ∨ r.action = .deleteEnumValue) :
    n.kind.isMember = false ∧ n.kind.isFacet = false := by
  obtain ⟨e, _, he, rfl, -⟩ := Graph.attachedNode_eq_ok_iff.mp hnode
  have hkind := hg.facades.known he
  rw [Model.facadeKind?_of_node? hn] at hkind
  obtain ⟨action, subject, param⟩ := r
  have demanded {r : Request} (condition : Facade.Kind → Bool) {reason : Mismatch}
      (h : (do r.demand (condition (← r.query (g.kind subject))) reason) = .ok ⟨⟩) :
      condition e.kind = true := by
    obtain ⟨kind, hk, h⟩ := bind_eq_ok_iff.mp h
    have hk := query_eq_ok_iff.mp hk
    rw [Graph.kind_of_entry he] at hk
    obtain rfl := Except.ok.inj hk
    exact demand_eq_ok_iff.mp h
  obtain hr | hr | hr := hr
  · cases hr
    have hproperty := (NodeKind.isProperty_of_ofNode? hkind).trans
      (demanded (·.isProperty) hreq)
    exact ⟨NodeKind.isMember_of_isProperty hproperty, NodeKind.isFacet_of_isProperty hproperty⟩
  · cases hr
    rw [of_decide_eq_true (demanded (· = .aliasName) hreq)] at hkind
    cases hk : n.kind <;> rw [hk] at hkind <;> cases hkind
    exact ⟨rfl, rfl⟩
  · cases hr
    rw [of_decide_eq_true (demanded (· = .valueLiteral) hreq)] at hkind
    cases hk : n.kind <;> rw [hk] at hkind <;> cases hkind
    exact ⟨rfl, rfl⟩

theorem owned_of_deletion (hg : Managed g) (hnode : g.attachedNode r.subject = .ok node)
    (hn : g.model.node? node = some n) (hreq : r.requirement g = .ok ⟨⟩)
    (hr : r.action = .deleteProperty ∨ r.action = .deleteAlias ∨ r.action = .deleteEnumValue) :
    n.owner ≠ none := by
  intro ho
  cases (hg.forest.root_kind hn ho).symm.trans (part_of_deletion hg hnode hn hreq hr).1

/-- A request leaves the libraries as they are. -/
theorem libraries_of_makes (hg : Managed g) (hnode : g.attachedNode r.subject = .ok node)
    (hreq : r.requirement g = .ok ⟨⟩) (h : Evolves (r.Makes g node) g g') :
    g'.model.libraries = g.model.libraries := by
  obtain ⟨_, n, -, -, hn, -⟩ := Graph.attachedNode_eq_ok_iff.mp hnode
  refine (h.along_extends hg.forest).libraries_eq fun hp hx => ?_
  obtain ⟨hmakes, -, hext⟩ := hp
  obtain ⟨rfl, hr⟩ := hmakes.of_detach
  obtain ⟨n'', hn'', -, ho, -⟩ := hext.same hn
  obtain rfl := Option.some.inj (hn''.symm.trans hx)
  rw [ho]
  exact owned_of_deletion hg hnode hn hreq hr

end Request

end SchemaEditor
