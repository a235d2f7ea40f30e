import SchemaEditor.Proofs.Session.Judgment
import SchemaEditor.Proofs.Session.ReadOnly
import SchemaEditor.Proofs.Session.TypeCycles

/-!
# Findings that stay current

Only the member around its subject is judged after a run, although runs also write elsewhere: names
follow types, and references to what was deleted are cleared. Neither is found by a validator that
looks for properties without a type. A name that follows a type belongs to a node that has one; and
what a deletion takes are properties, aliases and values, which are the types of nothing. So the
findings of every other member are what they were.
-/

namespace SchemaEditor

/-! ### What is found of a member -/

/-- What is found of a node: that it takes a type and has none. -/
def Node.finding? (x : NodeId) (n : Node) : Option Finding :=
  if Validator.lacksType n then some ⟨x, "'" ++ n.name ++ "' has no assigned type"⟩ else none

namespace Model

variable {m m' : Model} {id x : NodeId} {n k : Node}

/-- What is found of the nodes below a node, in their order. -/
def findings (m : Model) (id : NodeId) : List Finding :=
  (m.preorder id).filterMap fun x => (m.node? x).bind (Node.finding? x)

/-- What is found depends only on the nodes below. -/
theorem Forest.findings_congr (h : Forest m) (h' : Forest m')
    (hm : ∀ {x k}, Under m id x → m.node? x = some k →
      ∃ k', m'.node? x = some k' ∧ k'.children = k.children ∧ k'.finding? x = k.finding? x)
    (hn : m.node? id = some n) : m'.findings id = m.findings id := by
  have hbelow : m'.preorder id = m.preorder id := by
    refine h.preorder_congr_under h' (fun hu hk => ?_) hn
    obtain ⟨k', hk', hchildren, -⟩ := hm hu hk
    exact ⟨k', hk', hchildren⟩
  rw [findings, findings, hbelow]
  refine List.filterMap_congr fun x hx => ?_
  obtain ⟨hu, k, hk⟩ := h.under_of_mem_preorder hn hx
  obtain ⟨k', hk', -, hfinding⟩ := hm hu hk
  rw [hk, hk', Option.bind_some, Option.bind_some, hfinding]

/-- Nothing below a part is a member or a facet. -/
theorem part_of_under (hl : Layered m) (hn : Nested m) (hk : m.node? id = some k)
    (hpart : k.kind.isMember = false ∧ k.kind.isFacet = false) (hu : Under m id x)
    (hx : m.node? x = some n) : n.kind.isMember = false ∧ n.kind.isFacet = false := by
  induction hu generalizing n with
  | self =>
    obtain rfl := Option.some.inj (hk.symm.trans hx)
    exact hpart
  | @owned x n' o hn' ho _ ih =>
    obtain rfl := Option.some.inj (hn'.symm.trans hx)
    refine ⟨hn.inner hx ho, Bool.eq_false_iff.mpr fun hfacet => ?_⟩
    -- A facet is owned by a member, but what is below a part is none.
    obtain ⟨o', q, ho', hq, hmember⟩ := hl x n' hx hfacet
    obtain rfl := Option.some.inj (ho.symm.trans ho')
    cases hmember.symm.trans (ih hq).1

end Model

namespace Graph

variable {g : Graph} {id member : FacadeId} {e : Facade.Entry}

theorem untypedProperties_eq (hg : Managed g) (he : g.facades.entry? member = some e) :
    Validator.untypedProperties g member = .ofFindings (g.model.findings e.node) := by
  obtain ⟨n, hn, -⟩ := Model.facadeKind?_eq_some_iff.mp (hg.facades.known he)
  rw [Validator.untypedProperties, nodeOf_of_entry he]
  simp only [hg.forest.subtree_eq hn, Model.findings]
  refine congrArg _ (List.filterMap_congr fun x _ => ?_)
  cases g.model.node? x <;> rfl

/-- The facade of the owning member is that of the top node. -/
theorem owningMember_eq_ok_iff (hg : Managed g) :
    owningMember id g = .ok member g ↔
      ∃ top kind, g.owningNode id = .ok top ∧ g.facades.entry? member = some ⟨top, kind⟩ := by
  constructor
  · intro h
    obtain ⟨top, _, hask, h⟩ := Outcome.run_bind_eq_ok_iff.mp h
    obtain ⟨htop, rfl⟩ := ask_eq_ok_iff.mp hask
    obtain ⟨kind, he⟩ := exists_entry_of_facadeFor hg h
    exact ⟨top, kind, htop, he⟩
  · rintro ⟨top, kind, htop, he⟩
    exact (Outcome.bind_ok (ask_of_ok htop)).trans (facadeFor_of_entry hg he)

end Graph

/-! ### What requests leave alone -/

namespace Request

open SchemaEditor.Graph (Managed)
open Model (Layered Nested)

variable {r : Request} {g : Graph} {node x p : NodeId} {n n' : Node} {gone : List NodeId}

/-- What a request deletes is the type of nothing. -/
theorem not_hasType_of_removed (hg : Managed g) (hnode : g.attachedNode r.subject = .ok node)
    (hreq : r.requirement g = .ok ⟨⟩) (hl : Layered g.model) (hn : Nested g.model)
    (ht : g.model.WellTyped) (hp : p ∈ r.removed g node) : ¬ g.model.HasType x p := by
  rintro ⟨u, hu, hup⟩
  obtain ⟨-, k, -, -, hk, -⟩ := Graph.attachedNode_eq_ok_iff.mp hnode
  have hdeletes : p ∈ g.model.preorder node ∧
      (r.action = .deleteProperty ∨ r.action = .deleteAlias ∨ r.action = .deleteEnumValue) := by
    obtain ⟨action, subject, param⟩ := r
    cases action <;> simp_all [removed]
  have hpart := part_of_deletion hg hnode hk hreq hdeletes.2
  obtain ⟨-, -, c, -, -, hc, -⟩ := (ht x u p hu hup).1
  obtain ⟨q, hq, hkind⟩ := Model.kind_of_providerClass? hc
  have hbelow := Model.part_of_under hl hn hk hpart
    (hg.forest.under_of_mem_preorder hk hdeletes.1).1 hq
  obtain hmember | hfacet := hkind
  · cases hbelow.1.symm.trans hmember
  · cases hbelow.2.symm.trans hfacet

/-- A node that is spared is found as before, unless its type is gone. -/
theorem Spares.finding?_eq (h : r.Spares g node gone x n n') (hx : g.model.node? x = some n)
    (hgone : ∀ p ∈ gone, ¬ g.model.HasType x p) : n'.finding? x = n.finding? x := by
  have htype : n'.typeRef = n.typeRef :=
    h.reference_eq .type fun p hp href => hgone p hp ⟨n, hx, href⟩
  have hkind : n'.kind = n.kind := by rw [h.same]
  have hlacks : Validator.lacksType n' = Validator.lacksType n := by
    rw [Validator.lacksType, Validator.lacksType, htype, hkind]
  rw [Node.finding?, Node.finding?, hlacks]
  split
  · next hnone =>
    obtain hname | ⟨-, _, -, p, -, href, -⟩ := h.named
    · rw [hname]
    · -- A name that follows belongs to a node with a type.
      obtain ⟨k, hk, -, hp⟩ := Model.reference?_eq_some_iff.mp href
      obtain rfl := Option.some.inj (hk.symm.trans hx)
      replace hp : k.typeRef = some p := hp
      simp [Validator.lacksType, hp] at hnone
  · rfl

end Request

namespace Session

open SchemaEditor.Graph (Managed)
open Model (Bare Layered Nested)

variable {s s' : Session} {c : Call} {calls : List Call} {action : Action} {subject : FacadeId}
variable {param : Option Param} {o : Outcome} {member : FacadeId} {state : ValidationState}
variable {x : NodeId} {n' : Node}

/-! ### Parts that are added -/

/-- A call adds no members and no facets. -/
theorem Call.exists_or_part (hg : Managed s.graph) (hc : c.Mediated)
    (hx : (c.apply s).graph.model.node? x = some n') :
    (∃ n, s.graph.model.node? x = some n) ∨
      n'.kind.isMember = false ∧ n'.kind.isFacet = false := by
  obtain ⟨⟨action, subject, param⟩, hperforms⟩ | ⟨-, hmodel⟩ := c.exists_performs_or hg hc
  · obtain ⟨node, -, hwrites⟩ := hperforms.writes hg
    obtain ⟨n, hn, -⟩ | ⟨-, hcreates⟩ := hwrites.cases hx
    · exact .inl ⟨n, hn⟩
    · refine .inr ?_
      cases action with
      | addProperty =>
        obtain ⟨kind, -, hkind, -⟩ := hcreates
        rw [hkind]
        exact ⟨rfl, rfl⟩
      | addAlias | addEnumValue =>
        rw [show n'.kind = _ from hcreates]
        exact ⟨rfl, rfl⟩
      | _ => exact hcreates.elim
  · exact .inl ⟨n', hmodel ▸ hx⟩

theorem Call.layered (hg : Managed s.graph) (hc : c.Mediated) (h : Layered s.graph.model) :
    Layered (c.apply s).graph.model :=
  h.of_extends (c.evolves hg).extends_ fun _ _ hn hfacet =>
    .inl ((c.exists_or_part hg hc hn).resolve_right fun hpart => by
      cases hpart.2.symm.trans hfacet)

theorem Call.nested (hg : Managed s.graph) (hc : c.Mediated) (h : Nested s.graph.model) :
    Nested (c.apply s).graph.model :=
  h.of_extends (c.evolves hg).extends_ fun _ _ hn =>
    (c.exists_or_part hg hc hn).imp_right fun hpart =>
      ⟨hpart.2, fun _ ho => ⟨((c.evolves hg).managed hg).forest.owner_lt hn ho, hpart.1⟩⟩

/-! ### States that are recorded -/

/-- What is recorded of a facade: it is that of a member, and what is found of the member now. -/
def Current (s : Session) (member : FacadeId) (state : ValidationState) : Prop :=
  state = Validator.untypedProperties s.graph member ∧
    ∃ e, s.graph.facades.entry? member = some e ∧ s.graph.model.memberOf e.node = .ok e.node

/-- What a session keeps whose validator finds the properties without a type. -/
structure Judged (s : Session) : Prop where
  managed : Managed s.graph
  bare : Bare s.graph.model
  wellTyped : s.graph.model.WellTyped
  layered : Layered s.graph.model
  nested : Nested s.graph.model
  validator : s.validator = some Validator.untypedProperties
  current : ∀ {member state}, s.states[member]? = some state → s.Current member state

/-- A state is current as long as the same is found of the nodes of its member. -/
theorem Current.of_findings (h : s.Current member state) (hg : Managed s.graph)
    (hg' : Managed s'.graph) (hev : s.graph.Evolves (fun _ _ => True) s'.graph)
    (hfindings : ∀ e, s.graph.facades.entry? member = some e →
      s.graph.model.memberOf e.node = .ok e.node →
        s'.graph.model.findings e.node = s.graph.model.findings e.node) :
    s'.Current member state := by
  obtain ⟨rfl, e, he, hmember⟩ := h
  have he' := hev.entry?_eq he
  obtain ⟨n, hn, -⟩ := Model.facadeKind?_eq_some_iff.mp (hg.facades.known he)
  refine ⟨?_, e, he', ?_⟩
  · rw [Graph.untypedProperties_eq hg he, Graph.untypedProperties_eq hg' he',
      hfindings e he hmember]
  · rw [hg.forest.memberOf_of_extends hg'.forest hev.extends_ hn, hmember]

/-- A run changes nothing of what is found of the members other than that of its subject. -/
theorem findings_of_run {node top : NodeId} {t : Node} (h : s.Judged)
    (hrun : run action subject param s = .ok o s')
    (hnode : s.graph.attachedNode subject = .ok node) (ht : s.graph.model.node? top = some t)
    (hother : s.graph.model.memberOf top ≠ s.graph.model.memberOf node) :
    s'.graph.model.findings top = s.graph.model.findings top := by
  have hf := h.managed.forest
  obtain ⟨-, _, effect, g, hnode', hreq, hperform, hmodel, -⟩ :=
    exists_performed_of_run h.managed hrun
  obtain rfl := Except.ok.inj (hnode.symm.trans hnode')
  have hwrites := Request.writes_of_perform h.managed hnode hreq hperform
  rw [← hmodel] at hwrites
  obtain ⟨-, n, -, -, hn, -⟩ := Graph.attachedNode_eq_ok_iff.mp hnode
  have hg' : Managed s'.graph := (evolves_of_run h.managed hrun).managed h.managed
  refine hf.findings_congr hg'.forest (fun {x k} hu hk => ?_) ht
  have hmember : s.graph.model.memberOf x ≠ s.graph.model.memberOf node := by
    rwa [hf.memberOf_eq_of_under hu hk]
  obtain ⟨k', hk', hspares⟩ := hwrites.spares_of_memberOf hf h.bare hn hk hmember
  refine ⟨k', hk', by rw [hspares.same], hspares.finding?_eq hk fun p hp => ?_⟩
  exact Request.not_hasType_of_removed h.managed hnode hreq h.layered h.nested h.wellTyped hp

/-- After a run every recorded state is current: that of the member around the subject was recorded
anew, and of every other member the same is found as before. -/
theorem current_of_run (h : s.Judged) (hrun : run action subject param s = .ok o s')
    (hs : s'.states[member]? = some state) : s'.Current member state := by
  have hev := evolves_of_run h.managed hrun
  have hg' := hev.managed h.managed
  have hjudges := judges_of_run h.managed hrun
  have hf := h.managed.forest
  obtain ⟨top, t, htop, ht, hanswer⟩ := hjudges.answered _ h.validator
  obtain ⟨node, hnode, -⟩ := writes_of_run h.managed hrun
  obtain ⟨e, n, he, rfl, hn, -⟩ := Graph.attachedNode_eq_ok_iff.mp hnode
  have htop₀ : s.graph.model.memberOf e.node = .ok top := by
    rwa [Graph.owningNode_of_entry (hev.entry?_eq he), Graph.ofModelResult_eq_ok_iff,
      hf.memberOf_of_extends hg'.forest hev.extends_ hn] at htop
  by_cases howner : Graph.owningMember subject s'.graph = .ok member s'.graph
  · obtain ⟨_, kind, htop', he'⟩ := (Graph.owningMember_eq_ok_iff hg').mp howner
    obtain rfl := Except.ok.inj (htop.symm.trans htop')
    have hkind := hg'.facades.known he'
    rw [Model.facadeKind?_of_node? ht] at hkind
    obtain ⟨_, hsame, hstate⟩ := hanswer.resolve_left fun hnone => by
      cases hnone.symm.trans hkind
    obtain ⟨rfl, -⟩ := EStateM.Result.ok.inj (howner.symm.trans hsame)
    rw [validation, hs, Option.getD_some] at hstate
    obtain ⟨⟨t₀, ht₀, hroot⟩, -⟩ := (hf.memberOf_eq_ok_iff hn).mp htop₀
    refine ⟨hstate, _, he', ?_⟩
    rw [hf.memberOf_of_extends hg'.forest hev.extends_ ht₀, Model.Forest.memberOf_of_root ht₀ hroot]
  · have hkept : s'.states[member]? = s.states[member]? := by
      by_contra hchanged
      exact howner (hjudges.others member hchanged).2
    refine (h.current (hkept ▸ hs)).of_findings h.managed hg' hev fun e' he' hmember => ?_
    obtain ⟨t', ht', -⟩ := Model.facadeKind?_eq_some_iff.mp (h.managed.facades.known he')
    refine findings_of_run h hrun hnode ht' fun hsame => howner ?_
    -- The subject would belong to this member, which would have been judged.
    obtain rfl := Except.ok.inj (htop₀.symm.trans (hsame.symm.trans hmember))
    exact (Graph.owningMember_eq_ok_iff hg').mpr ⟨_, e'.kind, htop, hev.entry?_eq he'⟩

/-- A call keeps all of this, unless it sets another validator. -/
theorem Judged.apply (h : s.Judged) (hc : c.Mediated) (hv : ∀ v, c ≠ .setValidator v) :
    (c.apply s).Judged where
  managed := (c.evolves h.managed).managed h.managed
  bare := (c.evolves h.managed).bare h.bare
  wellTyped := c.wellTyped h.managed hc h.wellTyped
  layered := c.layered h.managed hc h.layered
  nested := c.nested h.managed hc h.nested
  validator := by
    cases c with
    | run => exact (Call.settings_of_run ..).2.trans h.validator
    | setValidator v => exact absurd rfl (hv v)
    | graph | setBus | setAdditions => exact h.validator
  current {member state} hs := by
    have hev := c.evolves h.managed
    cases c with
    | run action subject param =>
      cases hrun : Session.run action subject param s with
      | ok o s' =>
        simp only [Call.apply, hrun] at hs ⊢
        exact current_of_run h hrun hs
      | error e s' =>
        obtain ⟨-, rfl⟩ := (run_eq_error_iff h.managed).mp hrun
        simp only [Call.apply, hrun] at hs ⊢
        exact h.current hs
    | graph call =>
      have hmodel := Graph.Call.model_of_isLookup h.managed hc
      refine (h.current hs).of_findings h.managed (hev.managed h.managed) hev fun e _ _ => ?_
      exact congrArg (Model.findings · e.node) hmodel
    | setBus | setAdditions => exact h.current hs
    | setValidator v => exact absurd rfl (hv v)

theorem Judged.after (h : s.Judged) (hcalls : ∀ c ∈ calls, c.Mediated)
    (hv : ∀ v, .setValidator v ∉ calls) : (s.after calls).Judged :=
  List.foldlRecOn calls Call.apply h fun _ hs c hc =>
    hs.apply (hcalls c hc) fun v hset => hv v (hset ▸ hc)

/-- A new session over a graph, with a validator from the start. -/
def judging (g : Graph) (validator : Validator) : Session :=
  { ofGraph g with validator := some validator }

/-- In a session over a snapshot without types, whose validator finds the properties without a type
from the start: after any sequence of runs and lookups, what is recorded of a member is what the
validator finds of it now. -/
theorem recorded_findings_current {snapshot : Snapshot} {loaded : Snapshot.Loaded} {v : Versioning}
    {g : Graph} (hload : snapshot.load = .ok loaded)
    (huntyped : ∀ x p, ¬ loaded.model.HasType x p) (hgraph : Graph.ofModel loaded.model v = .ok g)
    (calls : List Call) (hcalls : ∀ c ∈ calls, c.Mediated) (hv : ∀ v, .setValidator v ∉ calls)
    (member : FacadeId) (state : ValidationState) :
    let s := (judging g .untypedProperties).after calls
    s.states[member]? = some state →
      s.validation member = Validator.untypedProperties s.graph member := by
  intro s hs
  obtain ⟨_, hgraph', hmodel, -, hsound⟩ := exists_sound_of_load hload v
  obtain rfl := Except.ok.inj (hgraph.symm.trans hgraph')
  have hstart : (judging g .untypedProperties).Judged := {
    managed := hsound.managed
    bare := hsound.bare
    wellTyped := fun x n p hn hp => absurd ⟨n, hmodel ▸ hn, hp⟩ (huntyped x p)
    layered := by
      show Layered g.model
      exact hmodel ▸ Snapshot.layered_of_load hload
    nested := by
      show Nested g.model
      exact hmodel ▸ Snapshot.nested_of_load hload
    validator := rfl
    current := fun {member state} hs => by simp [judging, ofGraph] at hs }
  rw [validation, hs, Option.getD_some]
  exact ((hstart.after hcalls hv).current hs).1

end Session

namespace Snapshot

open Session (Call)

/-- The amount of the order is described and gets an object as its type; then the object is
renamed. -/
def pricedOrder : List Call :=
  [.graph (.facadeFor ⟨8⟩), .graph (.facadeFor ⟨0⟩),
    .run .setDescription ⟨0⟩ (some (.text "What is due")),
    .run .assignType ⟨0⟩ (some (.provider ⟨1⟩)), .run .setName ⟨1⟩ (some (.text "price"))]

/-- The last run renames the amount with its type and judges the object only. What was recorded of
the order, which is the facade 2, is still what is found. -/
theorem recorded_findings_pricedOrder :
    ∃ loaded g, untypedOrder.load = .ok loaded ∧ (∀ x p, ¬ loaded.model.HasType x p) ∧
      Graph.ofModel loaded.model (.chain none) = .ok g ∧ (∀ c ∈ pricedOrder, c.Mediated) ∧
      (∀ v, .setValidator v ∉ pricedOrder) ∧
      let s := (Session.judging g .untypedProperties).after pricedOrder
      (s.graph.model.node? ⟨8⟩).map (·.name) = some "PriceRef" ∧
        s.states[FacadeId.mk 2]? = some (.invalid [⟨⟨9⟩, "'total' has no assigned type"⟩]) ∧
        s.validation ⟨2⟩ = Validator.untypedProperties s.graph ⟨2⟩ := by
  obtain ⟨loaded, g, hload, hgraph, hp⟩ := exists_graph (s := untypedOrder) (v := .chain none)
    (p := fun g =>
      let s := (Session.judging g .untypedProperties).after pricedOrder
      decide ((s.graph.model.node? ⟨8⟩).map (·.name) = some "PriceRef" ∧
        s.states[FacadeId.mk 2]? = some (.invalid [⟨⟨9⟩, "'total' has no assigned type"⟩])))
    (by decide +kernel)
  obtain ⟨hname, hstate⟩ := of_decide_eq_true hp
  have huntyped : ∀ x p, ¬ loaded.model.HasType x p := by
    rintro x p ⟨n, hn, hnp⟩
    obtain ⟨d, hd, htyped⟩ := exists_typed_of_load hload hn hnp
    have hnone : ∀ d ∈ untypedOrder.declarations, d.typeKey = none := by decide
    exact htyped (hnone d hd)
  have hcalls : ∀ c ∈ pricedOrder, c.Mediated := by
    simp [pricedOrder, Call.Mediated, Graph.Call.IsLookup]
  have hv : ∀ v, .setValidator v ∉ pricedOrder := by simp [pricedOrder]
  exact ⟨loaded, g, hload, huntyped, hgraph, hcalls, hv, hname, hstate,
    Session.recorded_findings_current hload huntyped hgraph pricedOrder hcalls hv _ _ hstate⟩

end Snapshot

end SchemaEditor
