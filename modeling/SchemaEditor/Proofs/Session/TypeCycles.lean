import SchemaEditor.Proofs.Graph.TypeChain
import SchemaEditor.Proofs.Session.CarriedForward
import SchemaEditor.Proofs.Session.Writing

/-!
# Cycles of types

A member is not extended if its bases would then come back to it. An assigned type is only compared
with the node that takes it: so no node becomes its own type, but a type whose own types lead back
to the node is assigned all the same. Nothing else puts a node on a cycle of types, and only simple
types and values with attributes can come to lie on one.
-/

namespace SchemaEditor

open Relation (ReflTransGen)

/-- A type that is gone was released. -/
theorem Node.typeRef_released (below : List NodeId) (x : NodeId) (n : Node) :
    (n.released below x).typeRef = n.typeRef ∨ (n.released below x).typeRef = none :=
  (released_cases .type below x n).imp_right (·.1)

namespace Request

open SchemaEditor.Graph (Managed)

variable {r : Request} {g : Graph} {node x p : NodeId} {m' : Model}

/-- Where one node is written and keeps its type or loses it, no type is set. -/
theorem hasType_of_writtenAt {f : Node → Node} (h : g.WrittenAt node f m')
    (hkept : ∀ n, (f n).typeRef = n.typeRef ∨ (f n).typeRef = none) (hx : m'.HasType x p) :
    g.model.HasType x p := by
  refine h.hasType_of_none (fun {y n n'} hw => ?_) hx
  rw [hw]
  split
  · exact hkept n
  · exact .inl rfl

/-- What is added has no type. -/
theorem hasType_of_grownBelow {container : NodeId} {kind : NodeKind} {mandatory : Bool}
    (h : g.GrownBelow container kind mandatory m') (hx : m'.HasType x p) : g.model.HasType x p := by
  obtain ⟨_, _, _, -, -, -, -, hgrown⟩ := h
  refine hgrown.hasType ?_ (fun {y n n'} hw => ?_) hx
  · rintro _ ⟨⟩
    rfl
  · rw [hw]
    split <;> exact .inl rfl

/-- A request sets no reference to a type but the one that it assigns. -/
theorem Writes.hasType_cases (h : r.Writes g node m') (hx : m'.HasType x p) :
    g.model.HasType x p ∨ r.action = .assignType ∧ x = node ∧
      ∃ provider, r.param = some (.provider provider) ∧ g.nodeOf provider = .ok p := by
  obtain ⟨action, subject, param⟩ := r
  cases action with
  | setName =>
    obtain ⟨_, -, hrenamed⟩ := h
    refine .inl (hrenamed.hasType_of_none (fun {y n n'} hw => ?_) hx)
    obtain rfl | ⟨-, _, rfl⟩ := hw <;> exact .inl rfl
  | assignType =>
    obtain ⟨provider, q, hparam, hq, hassigned⟩ := h
    obtain ⟨n', hn', hp⟩ := hx
    obtain ⟨n, hn, _, -, rfl⟩ | ⟨-, hnew⟩ := hassigned.cases hn'
    · split at hp
      · next hsame =>
        obtain rfl := Option.some.inj hp
        exact .inr ⟨rfl, hsame, provider, hparam, hq⟩
      · exact .inl ⟨n, hn, hp⟩
    · cases hnew
  | setDescription | setExample | setDeprecation =>
    obtain ⟨_, -, hwritten⟩ := h
    exact .inl (hasType_of_writtenAt hwritten (fun _ => .inl rfl) hx)
  | setMandatory =>
    obtain ⟨_, -, hwritten⟩ := h
    exact .inl (hasType_of_writtenAt hwritten (fun _ => .inl rfl) hx)
  | clearType => exact .inl (hasType_of_writtenAt h (fun _ => .inr rfl) hx)
  | clearBaseType => exact .inl (hasType_of_writtenAt h (fun _ => .inl rfl) hx)
  | setBaseType =>
    obtain ⟨_, _, -, -, hwritten⟩ := h
    exact .inl (hasType_of_writtenAt hwritten (fun _ => .inl rfl) hx)
  | addProperty =>
    obtain ⟨_, _, -, -, hgrown⟩ := h
    exact .inl (hasType_of_grownBelow hgrown hx)
  | addAlias | addEnumValue => exact .inl (hasType_of_grownBelow h hx)
  | deleteProperty | deleteAlias | deleteEnumValue =>
    obtain ⟨_, below, -, -, hcut⟩ := h
    refine .inl (hcut.hasType_of_none (fun {y n n'} hw => ?_) hx)
    subst hw
    exact Node.typeRef_released below y n

/-- An assigned type is there, and other nodes keep theirs. -/
theorem Writes.hasType_of_assignType {subject provider : FacadeId}
    (h : (⟨.assignType, subject, some (.provider provider)⟩ : Request).Writes g node m')
    (hnode : ∃ n, g.model.node? node = some n) (hp : g.nodeOf provider = .ok p) :
    m'.HasType node p ∧ ∀ y z, y ≠ node → g.model.HasType y z → m'.HasType y z := by
  obtain ⟨_, q, hparam, hq, hassigned⟩ := h
  obtain rfl := Param.provider.inj (Option.some.inj hparam)
  obtain rfl := Except.ok.inj (hq.symm.trans hp)
  constructor
  · obtain ⟨n, hn⟩ := hnode
    obtain ⟨n', hn', _, -, hw⟩ := hassigned.kept hn
    exact ⟨n', hn', by rw [hw, if_pos rfl]⟩
  · rintro y z hy ⟨n, hn, hz⟩
    obtain ⟨n', hn', _, -, hw⟩ := hassigned.kept hn
    exact ⟨n', hn', by rw [hw, if_neg hy, hz]⟩

end Request

namespace Session

open SchemaEditor.Graph (Managed)
open Outcome (Occurs bind_eq_ok_iff foldl_keeps)

variable {s s' : Session} {c : Call} {calls : List Call} {x p : NodeId}
variable {subject : FacadeId} {param : Option Param} {o : Outcome}

/-- What a run that assigns a type found, and what it wrote. -/
theorem assignment_of_run (hg : Managed s.graph)
    (hrun : run .assignType subject param s = .ok o s') :
    ∃ provider u p, param = some (.provider provider) ∧ s.graph.attachedNode subject = .ok u ∧
      s.graph.attachedNode provider = .ok p ∧ s.graph.canAssign subject provider = .ok ⟨⟩ ∧
      (⟨.assignType, subject, some (.provider provider)⟩ : Request).Writes s.graph u
        s'.graph.model := by
  obtain ⟨-, u, -, -, hu, hreq, -⟩ := exists_performed_of_run hg hrun
  obtain ⟨_, hu', hwrites, -⟩ := writes_of_run hg hrun
  obtain rfl := Except.ok.inj (hu.symm.trans hu')
  obtain ⟨_, -, hreq⟩ := bind_eq_ok_iff.mp hreq
  obtain ⟨⟨⟩, -, hreq⟩ := bind_eq_ok_iff.mp hreq
  obtain ⟨provider, hprovider, hcan⟩ := bind_eq_ok_iff.mp hreq
  have hcan := Request.query_eq_ok_iff.mp hcan
  obtain ⟨-, p, hp⟩ := Graph.attached_of_canAssign hcan
  obtain rfl : param = some (.provider provider) := Request.provider_eq_ok_iff.mp hprovider
  exact ⟨provider, u, p, rfl, hu, hp, hcan, hwrites⟩

/-- A run assigns a type whose types lead back to the node that takes it. -/
def Call.ClosesTypeCycle (s : Session) (c : Call) : Prop :=
  ∃ user provider o s' u p, c = .run .assignType user (some (.provider provider)) ∧
    Session.run .assignType user (some (.provider provider)) s = .ok o s' ∧
    s.graph.attachedNode user = .ok u ∧ s.graph.attachedNode provider = .ok p ∧
    ReflTransGen s.graph.model.HasType p u

/-- Only a run gives a node another type, one that can be assigned to it. -/
theorem Call.hasType_cases (hg : Managed s.graph) (hc : c.Mediated)
    (h : (c.apply s).graph.model.HasType x p) : s.graph.model.HasType x p ∨
      ∃ user provider o s', c = .run .assignType user (some (.provider provider)) ∧
        Session.run .assignType user (some (.provider provider)) s = .ok o s' ∧
        s.graph.attachedNode user = .ok x ∧ s.graph.attachedNode provider = .ok p ∧
        s.graph.canAssign user provider = .ok ⟨⟩ := by
  obtain ⟨⟨action, subject, param⟩, hperforms⟩ | ⟨-, hmodel⟩ := c.exists_performs_or hg hc
  · obtain ⟨node, hnode, hwrites⟩ := hperforms.writes hg
    obtain ⟨rfl, o, s', hrun⟩ := hperforms
    refine (hwrites.hasType_cases h).imp_right ?_
    rintro ⟨haction, rfl, provider, hparam, hp⟩
    obtain rfl : action = .assignType := haction
    obtain ⟨provider', u, p', hparam', hu, hp', hcan, -⟩ := assignment_of_run hg hrun
    obtain rfl := Param.provider.inj (Option.some.inj (hparam.symm.trans hparam'))
    obtain rfl := Except.ok.inj (hp.symm.trans (Graph.nodeOf_of_attachedNode hp'))
    obtain rfl : param = some (.provider provider) := hparam
    exact ⟨subject, provider, o, s', rfl, hrun, hnode, hp', hcan⟩
  · exact .inl (hmodel ▸ h)

/-- Types suit their nodes after a call if they did so before. -/
theorem Call.wellTyped (hg : Managed s.graph) (hc : c.Mediated) (h : s.graph.model.WellTyped) :
    (c.apply s).graph.model.WellTyped := by
  intro x n' p hn' hp
  have hext := (c.evolves hg).extends_
  obtain ⟨n, hn, hnp⟩ | ⟨user, provider, o, s', rfl, hrun, hu, hprovider, hcan⟩ :=
    c.hasType_cases hg hc ⟨n', hn', hp⟩
  · obtain ⟨k, hk, hkind, -⟩ := hext.same hn
    obtain rfl := Option.some.inj (hk.symm.trans hn')
    exact ⟨(h x n p hn hnp).1.of_extends hext hkind, (h x n p hn hnp).2⟩
  · obtain ⟨e, n, he, rfl, hn, -⟩ := Graph.attachedNode_eq_ok_iff.mp hu
    obtain ⟨k, hk, hkind, -⟩ := hext.same hn
    obtain rfl := Option.some.inj (hk.symm.trans hn')
    exact ⟨(Graph.joins_of_canAssign hg hcan hu hprovider hn).of_extends hext hkind,
      Graph.ne_of_canAssign hg hcan hu hprovider⟩

/-- A node on a cycle of types was on one before a call, or the call has closed one. -/
theorem Call.onTypeCycle_cases (hg : Managed s.graph) (hc : c.Mediated)
    (h : (c.apply s).graph.model.OnTypeCycle x) :
    s.graph.model.OnTypeCycle x ∨ c.ClosesTypeCycle s := by
  by_cases hnew : ∃ u p, (c.apply s).graph.model.HasType u p ∧ ¬ s.graph.model.HasType u p
  · obtain ⟨u, p, hup, hnot⟩ := hnew
    obtain ⟨user, provider, o, s', rfl, hrun, hu, hp, -⟩ :=
      (c.hasType_cases hg hc hup).resolve_left hnot
    -- The run sets one reference only.
    have hcases : ∀ y z, ((Call.run .assignType user (some (.provider provider))).apply
        s).graph.model.HasType y z → s.graph.model.HasType y z ∨ y = u ∧ z = p := by
      intro y z hyz
      refine (Call.hasType_cases hg hc hyz).imp_right ?_
      rintro ⟨_, _, _, _, hsame, -, hy, hz, -⟩
      injection hsame with _ huser hparam
      obtain rfl := huser
      obtain rfl := Param.provider.inj (Option.some.inj hparam)
      exact ⟨Except.ok.inj (hy.symm.trans hu), Except.ok.inj (hz.symm.trans hp)⟩
    refine (Model.cycle_cases hcases h).imp_right fun hreaches => ?_
    exact ⟨user, provider, o, s', u, p, rfl, hrun, hu, hp, hreaches⟩
  · refine .inl (Relation.TransGen.mono (fun y z hyz => ?_) x x h)
    by_contra hnot
    exact hnew ⟨y, z, hyz, hnot⟩

/-- A run that closes a cycle of types leaves the node that takes the type on it. -/
theorem Call.ClosesTypeCycle.exists_onTypeCycle (hg : Managed s.graph)
    (h : c.ClosesTypeCycle s) : ∃ x, (c.apply s).graph.model.OnTypeCycle x := by
  obtain ⟨user, provider, o, s', u, p, rfl, hrun, hu, hp, hreaches⟩ := h
  obtain ⟨_, _, _, hparam, hu', -, -, hwrites⟩ := assignment_of_run hg hrun
  obtain rfl := Param.provider.inj (Option.some.inj hparam)
  obtain rfl := Except.ok.inj (hu.symm.trans hu')
  obtain ⟨-, n, -, -, hn, -⟩ := Graph.attachedNode_eq_ok_iff.mp hu
  obtain ⟨htype, hkept⟩ :=
    hwrites.hasType_of_assignType ⟨n, hn⟩ (Graph.nodeOf_of_attachedNode hp)
  simp only [Call.apply, hrun]
  exact ⟨u, Model.cycle_of_reaches htype hkept hreaches⟩

theorem wellTyped_after (hg : Managed s.graph) (hcalls : ∀ c ∈ calls, c.Mediated)
    (h : s.graph.model.WellTyped) : (s.after calls).graph.model.WellTyped :=
  (List.foldlRecOn calls Call.apply
    (motive := fun s => Managed s.graph ∧ s.graph.model.WellTyped) ⟨hg, h⟩
    fun _ ⟨hg, h⟩ c hc => ⟨(c.evolves hg).managed hg, c.wellTyped hg (hcalls c hc) h⟩).2

/-- As long as no run closes a cycle of types, there is none. -/
theorem not_onTypeCycle_after (hg : Managed s.graph) (hcalls : ∀ c ∈ calls, c.Mediated)
    (h : ∀ x, ¬ s.graph.model.OnTypeCycle x)
    (hnone : ¬ Occurs Call.apply Call.ClosesTypeCycle s calls) (x : NodeId) :
    ¬ (s.after calls).graph.model.OnTypeCycle x := by
  refine (foldl_keeps (I := fun s => Managed s.graph ∧ ∀ x, ¬ s.graph.model.OnTypeCycle x)
    (fun {s c} hc ⟨hg, h⟩ hcloses => ?_) ⟨hg, h⟩ hnone).2 x
  refine ⟨(c.evolves hg).managed hg, fun x hx => ?_⟩
  exact (c.onTypeCycle_cases hg (hcalls c hc) hx).elim (h x) hcloses

/-- In a session over a snapshot without types: after any sequence of runs and lookups no node is
its own type, and the types that lead back to a node are simple types only, or values with
attributes only. At no time do types lead back to a node exactly if no run of the sequence assigns a
type that leads back to the node that takes it. -/
theorem type_cycles_come_from_assignments {snapshot : Snapshot} {loaded : Snapshot.Loaded}
    {v : Versioning} {g : Graph} (hload : snapshot.load = .ok loaded)
    (huntyped : ∀ x p, ¬ loaded.model.HasType x p) (hgraph : Graph.ofModel loaded.model v = .ok g)
    (calls : List Call) (hcalls : ∀ c ∈ calls, c.Mediated) :
    let m := ((ofGraph g).after calls).graph.model
    (∀ x, ¬ m.HasType x x) ∧
    (∀ x, m.OnTypeCycle x → (∀ y, ReflTransGen m.HasType x y → m.IsMember y .simpleType) ∨
      ∀ y, ReflTransGen m.HasType x y → m.IsMember y .valueWithAttributes) ∧
    ((∀ before, before <+: calls → ∀ x, ¬ ((ofGraph g).after before).graph.model.OnTypeCycle x) ↔
      ¬ Occurs Call.apply Call.ClosesTypeCycle (ofGraph g) calls) := by
  obtain ⟨_, hgraph', hmodel, -, hsound⟩ := exists_sound_of_load hload v
  obtain rfl := Except.ok.inj (hgraph.symm.trans hgraph')
  rw [← hmodel] at huntyped
  have hwell := wellTyped_after hsound.managed hcalls fun x n p hn hp =>
    absurd ⟨n, hn, hp⟩ (huntyped x p)
  refine ⟨?_, fun x => hwell.isMember_of_cycle, ?_, ?_⟩
  · rintro x ⟨n, hn, hx⟩
    exact (hwell x n x hn hx).2 rfl
  · rintro hacyclic ⟨before, c, rest, rfl, hcloses⟩
    obtain ⟨x, hx⟩ := hcloses.exists_onTypeCycle (hsound.after before).managed
    refine hacyclic (before ++ [c]) ⟨rest, by simp⟩ x ?_
    rw [after, List.foldl_append]
    exact hx
  · rintro hnone before ⟨rest, rfl⟩
    refine not_onTypeCycle_after hsound.managed
      (fun c hc => hcalls c (List.mem_append_left _ hc)) (fun x hx => ?_)
      fun hcloses => hnone (hcloses.append rest)
    obtain ⟨p, hxp, -⟩ := Relation.TransGen.head'_iff.mp hx
    exact huntyped x p hxp

end Session

namespace Snapshot

open Session (Call)

/-- A simple type without a type. -/
def Member.simpleType (name : String) : Member :=
  { Member.object name none [] with kind := .member .simpleType, facets := .empty }

/-- Two simple types, which are not yet based on any. -/
def codeAndKey : Snapshot := shop [.simpleType "Code", .simpleType "Key"]

/-- The two simple types, as the facades 0 and 1, are based on each other. -/
def baseInTurn : List Call :=
  [.graph (.facadeFor ⟨0⟩), .graph (.facadeFor ⟨1⟩),
    .run .assignType ⟨0⟩ (some (.provider ⟨1⟩)), .run .assignType ⟨1⟩ (some (.provider ⟨0⟩))]

/-- Both runs are performed. -/
theorem exists_graph_codeAndKey :
    ∃ loaded g, codeAndKey.load = .ok loaded ∧ Graph.ofModel loaded.model (.chain none) = .ok g ∧
      (∀ x p, ¬ loaded.model.HasType x p) ∧
      ((Session.ofGraph g).after baseInTurn).graph.model.OnTypeCycle ⟨0⟩ := by
  obtain ⟨loaded, g, hload, hgraph, hp⟩ := exists_graph (s := codeAndKey) (v := .chain none)
    (p := fun g =>
      let m := ((Session.ofGraph g).after baseInTurn).graph.model
      decide (m.HasType ⟨0⟩ ⟨1⟩ ∧ m.HasType ⟨1⟩ ⟨0⟩)) (by decide +kernel)
  obtain ⟨hfirst, hsecond⟩ := of_decide_eq_true hp
  refine ⟨loaded, g, hload, hgraph, ?_, .tail (.single hfirst) hsecond⟩
  rintro x p ⟨n, hn, hnp⟩
  obtain ⟨d, hd, htyped⟩ := exists_typed_of_load hload hn hnp
  have huntyped : ∀ d ∈ codeAndKey.declarations, d.typeKey = none := by decide
  exact htyped (huntyped d hd)

/-- One of the runs closes the cycle, and neither of the nodes is its own type. -/
theorem type_cycles_codeAndKey :
    ∃ loaded g, codeAndKey.load = .ok loaded ∧ Graph.ofModel loaded.model (.chain none) = .ok g ∧
      (∀ x, ¬ ((Session.ofGraph g).after baseInTurn).graph.model.HasType x x) ∧
      Outcome.Occurs Call.apply Call.ClosesTypeCycle (Session.ofGraph g) baseInTurn := by
  obtain ⟨loaded, g, hload, hgraph, huntyped, hcycle⟩ := exists_graph_codeAndKey
  have hcalls : ∀ c ∈ baseInTurn, c.Mediated := by
    simp [baseInTurn, Call.Mediated, Graph.Call.IsLookup]
  obtain ⟨hown, -, hiff⟩ :=
    Session.type_cycles_come_from_assignments hload huntyped hgraph baseInTurn hcalls
  refine ⟨loaded, g, hload, hgraph, hown, ?_⟩
  by_contra hnone
  exact hiff.mpr hnone baseInTurn (List.prefix_refl _) ⟨0⟩ hcycle

/-- Two simple types come to be based on each other, by runs that are both performed. -/
theorem types_come_back :
    ∃ loaded g, codeAndKey.load = .ok loaded ∧ Graph.ofModel loaded.model (.chain none) = .ok g ∧
      (∀ x p, ¬ loaded.model.HasType x p) ∧ (∀ c ∈ baseInTurn, c.Mediated) ∧
      ((Session.ofGraph g).after baseInTurn).graph.model.OnTypeCycle ⟨0⟩ := by
  obtain ⟨loaded, g, hload, hgraph, huntyped, hcycle⟩ := exists_graph_codeAndKey
  refine ⟨loaded, g, hload, hgraph, huntyped, ?_, hcycle⟩
  simp [baseInTurn, Call.Mediated, Graph.Call.IsLookup]

end Snapshot

end SchemaEditor
