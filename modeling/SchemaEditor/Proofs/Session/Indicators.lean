import SchemaEditor.Proofs.Session.Writing

/-!
# Names of indicators

A name that is given to an indicator is brought into the form of indicators, which has an ending of
its own. The default names of indicators have that ending too; but an indicator is added without a
name, and where a sibling has the default name already, a number is put behind it. So an indicator
can come to lack the ending, and it does so until it is renamed.
-/

namespace SchemaEditor

/-- The node is an indicator. -/
def Node.IsIndicator (n : Node) : Prop := n.IsPropertyWith (·.naming = .indicator)

instance (n : Node) : Decidable n.IsIndicator := inferInstanceAs (Decidable (n.IsPropertyWith _))

/-- The default names of indicators end as their names should. -/
theorem PropertyKind.isIndicatorName_defaultName {kind : PropertyKind}
    (h : kind.profile.naming = .indicator) :
    Naming.IsIndicatorName kind.profile.defaultName := by
  cases kind with
  | indicator | indicatorElement => decide
  | _ => cases h

namespace Model

/-- The names of all indicators end as they should. -/
def IndicatorsNamed (m : Model) : Prop :=
  ∀ x n, m.node? x = some n → n.IsIndicator → Naming.IsIndicatorName n.name

instance (m : Model) : Decidable m.IndicatorsNamed :=
  decidable_of_iff
    (∀ x ∈ m.nodeIds, ∀ n ∈ m.node? x, n.IsIndicator → Naming.IsIndicatorName n.name)
    ⟨fun h x n hn => h x (mem_nodeIds.mpr (lt_of_node? hn)) n hn, fun h x _ n hn => h x n hn⟩

end Model

namespace Graph

variable {g g' : Graph} {id : FacadeId} {x p : NodeId} {n n' : Node} {name after : String}

/-- The name of an indicator follows no type. -/
theorem not_nameFollows_of_isIndicator (hx : g.model.node? x = some n) (hn : n.IsIndicator) :
    ¬ g.NameFollows x p := by
  intro h
  obtain ⟨kind, hkind, hnaming⟩ := hn
  obtain ⟨property, hproperty, hfollows⟩ := h.exists_property hx
  obtain rfl := NodeKind.property.inj (hkind.symm.trans hproperty)
  obtain hfrom | rfl := hfollows
  · cases hnaming.symm.trans hfrom
  · cases hnaming

/-- The name that an indicator is given ends as it should. -/
theorem isIndicatorName_of_setName (hg : Managed g) (h : setName id name g = .ok after g')
    (hx : g.attachedNode id = .ok x) (hn' : g'.model.node? x = some n') (hi : n'.IsIndicator) :
    Naming.IsIndicatorName n'.name := by
  obtain ⟨node, n, k, rule, hnode, hn, hrule, hafter, hk, hkind, hname⟩ := stored_of_setName hg h
  obtain rfl := Except.ok.inj (hx.symm.trans hnode)
  obtain rfl := Option.some.inj (hk.symm.trans hn')
  obtain ⟨kind, hproperty, hnaming⟩ := hi
  obtain ⟨e, _, he, rfl, -⟩ := attachedNode_eq_ok_iff.mp hx
  have hfacade := (Model.facadeKind?_of_node? hn).symm.trans (hg.facades.known he)
  rw [← hkind, hproperty] at hfacade
  have hgiven := naming?_of_givenNameRule hg he hrule
  rw [← Option.some.inj hfacade] at hgiven
  obtain rfl : rule = .indicator := (Option.some.inj hgiven).symm.trans hnaming
  rw [hname, hafter]
  exact Naming.isIndicatorName_indicatorName _

end Graph

namespace Session

open SchemaEditor.Graph (Managed)
open Outcome (Stands)

variable {s : Session} {c : Call} {calls : List Call} {x : NodeId} {n' : Node}

/-- A run gives a name to a node, and is performed. -/
def Call.Renames (x : NodeId) (s : Session) (c : Call) : Prop :=
  ∃ subject name, c.Performs s ⟨.setName, subject, some (.text name)⟩ ∧
    s.graph.attachedNode subject = .ok x

/-- A run adds a node as a property beside one with the default name of its kind. -/
def Call.AddsNumbered (x : NodeId) (s : Session) (c : Call) : Prop :=
  ∃ subject kind container taken, c.Performs s ⟨.addProperty, subject, some (.property kind)⟩ ∧
    s.graph.acceptingContainer? subject kind = .ok (some container) ∧
    s.graph.model.childNames container = .ok taken ∧ kind.profile.defaultName ∈ taken ∧
    x = s.graph.model.nextId

theorem Call.Renames.isIndicatorName (hg : Managed s.graph) (h : c.Renames x s)
    (hx : (c.apply s).graph.model.node? x = some n') (hn' : n'.IsIndicator) :
    Naming.IsIndicatorName n'.name := by
  obtain ⟨subject, name, hperforms, hnode⟩ := h
  obtain ⟨_, effect, g, -, -, hperform, hmodel⟩ := hperforms.performed hg
  obtain ⟨_, after, -, hset⟩ := Request.renamed_of_perform hperform
  rw [hmodel] at hx
  exact Graph.isIndicatorName_of_setName hg hset hnode hx hn'

/-- A run that adds a property adds it under a free name made of the default one. -/
theorem Call.Performs.added {subject : FacadeId} {param : Option Param} (hg : Managed s.graph)
    (h : c.Performs s ⟨.addProperty, subject, param⟩) :
    ∃ kind container taken n', param = some (.property kind) ∧
      s.graph.acceptingContainer? subject kind = .ok (some container) ∧
      s.graph.model.childNames container = .ok taken ∧
      (c.apply s).graph.model.node? s.graph.model.nextId = some n' ∧
      n'.kind = .property kind ∧
      n'.name = Naming.uniqueName kind.profile.defaultName taken := by
  obtain ⟨_, effect, g, -, hreq, hperform, hmodel⟩ := h.performed hg
  obtain ⟨kind, container, facade, hparam, hc, hadd⟩ := Request.added_of_perform hreq hperform
  obtain ⟨p, hp, -⟩ := Graph.attached_of_acceptingContainer? hc
  obtain ⟨taken, htaken⟩ := hg.forest.exists_childNames hp
  have hadded := (Graph.addProperty_rewritten hg hc hp htaken hadd).added rfl
  refine ⟨kind, container, taken, _, hparam, hc, htaken, hmodel ▸ hadded, rfl, ?_⟩
  simp [Graph.requestedName, Node.fresh]

/-- The name of an indicator was given in a call, or it is the one that it had before, or the
indicator was added with a name that ends as it should unless there is a number behind it. -/
theorem Call.name_cases (hg : Managed s.graph) (hc : c.Mediated)
    (hx : (c.apply s).graph.model.node? x = some n') (hi : n'.IsIndicator) :
    c.Renames x s ∧ Naming.IsIndicatorName n'.name ∨
    ¬ c.Renames x s ∧ ((∃ n, s.graph.model.node? x = some n ∧ n'.name = n.name) ∨
      s.graph.model.node? x = none ∧ (Naming.IsIndicatorName n'.name ↔ ¬ c.AddsNumbered x s)) := by
  by_cases hrenames : c.Renames x s
  · exact .inl ⟨hrenames, hrenames.isIndicatorName hg hx hi⟩
  refine .inr ⟨hrenames, ?_⟩
  obtain ⟨⟨action, subject, param⟩, hperforms⟩ | ⟨-, hmodel⟩ := c.exists_performs_or hg hc
  · obtain ⟨node, hnode, hwrites⟩ := hperforms.writes hg
    obtain ⟨n, hn, hleaves⟩ | ⟨rfl, hcreates⟩ := hwrites.cases hx
    · refine .inl ⟨n, hn, ?_⟩
      obtain hsame | ⟨rfl, rfl⟩ | ⟨p, hfollows⟩ := hleaves.name
      · exact hsame
      · obtain ⟨_, _, _, -, -, hperform, -⟩ := hperforms.performed hg
        obtain ⟨name, -, hparam, -⟩ := Request.renamed_of_perform hperform
        exact absurd ⟨subject, name, hparam ▸ hperforms, hnode⟩ hrenames
      · obtain ⟨k, hk, hkind, -⟩ := (c.evolves hg).extends_.same hn
        obtain rfl := Option.some.inj (hk.symm.trans hx)
        obtain ⟨kind, hproperty, hnaming⟩ := hi
        have hi : n.IsIndicator := ⟨kind, hkind ▸ hproperty, hnaming⟩
        exact absurd hfollows (Graph.not_nameFollows_of_isIndicator hn hi)
    · obtain ⟨kind, hproperty, hnaming⟩ := hi
      refine .inr ⟨Model.node?_nextId _, ?_⟩
      cases action with
      | addProperty =>
        obtain ⟨kind', container, taken, k, rfl, hcontainer, htaken, hk, hkind, hname⟩ :=
          hperforms.added hg
        obtain rfl := Option.some.inj (hk.symm.trans hx)
        obtain rfl := NodeKind.property.inj (hproperty.symm.trans hkind)
        rw [hname, Naming.isIndicatorName_uniqueName_iff
          (PropertyKind.isIndicatorName_defaultName hnaming), not_iff_not]
        constructor
        · intro hmem
          exact ⟨subject, kind, container, taken, hperforms, hcontainer, htaken, hmem, rfl⟩
        · rintro ⟨_, _, _, _, hperforms', hcontainer', htaken', hmem, -⟩
          have hsame := hperforms.unique hperforms'
          injection hsame with _ hsubject hparam
          obtain rfl := hsubject
          obtain rfl := Param.property.inj (Option.some.inj hparam)
          obtain rfl := Option.some.inj (Except.ok.inj (hcontainer.symm.trans hcontainer'))
          obtain rfl := Except.ok.inj (htaken.symm.trans htaken')
          exact hmem
      | addAlias | addEnumValue => cases hproperty.symm.trans hcreates
      | _ => exact hcreates.elim
  · rw [hmodel] at hx
    exact .inl ⟨n', hx, rfl⟩

/-- The name of the node does not end as those of indicators do. -/
def LacksEnding (x : NodeId) (s : Session) : Prop :=
  ∃ n, s.graph.model.node? x = some n ∧ ¬ Naming.IsIndicatorName n.name

/-- A call makes an indicator lack its ending if it adds it with a number; otherwise the ending is
lacking as before unless the indicator is renamed. -/
theorem Call.lacksEnding_iff (hg : Managed s.graph) (hc : c.Mediated)
    (hi : ∀ n', (c.apply s).graph.model.node? x = some n' → n'.IsIndicator) :
    LacksEnding x (c.apply s) ↔ c.AddsNumbered x s ∨ LacksEnding x s ∧ ¬ c.Renames x s := by
  constructor
  · rintro ⟨n', hn', hlacks⟩
    obtain ⟨-, hends⟩ | ⟨hnot, ⟨n, hn, hsame⟩ | ⟨-, hiff⟩⟩ := c.name_cases hg hc hn' (hi n' hn')
    · exact absurd hends hlacks
    · exact .inr ⟨⟨n, hn, hsame ▸ hlacks⟩, hnot⟩
    · exact .inl (not_not.mp (mt hiff.mpr hlacks))
  · rintro (hadds | ⟨⟨n, hn, hlacks⟩, hnot⟩)
    · obtain ⟨_, _, _, _, hperforms, -, -, -, rfl⟩ := id hadds
      obtain ⟨_, _, _, n', -, -, -, hn', -⟩ := hperforms.added hg
      refine ⟨n', hn', ?_⟩
      obtain ⟨⟨_, _, hrenames, -⟩, -⟩ | ⟨-, ⟨n, hn, -⟩ | ⟨-, hiff⟩⟩ :=
        c.name_cases hg hc hn' (hi n' hn')
      · cases hperforms.unique hrenames
      · cases (Model.node?_nextId _).symm.trans hn
      · exact fun hends => hiff.mp hends hadds
    · obtain ⟨n', hn', -⟩ := (c.evolves hg).extends_.same hn
      refine ⟨n', hn', ?_⟩
      obtain ⟨hrenames, -⟩ | ⟨-, ⟨k, hk, hsame⟩ | ⟨hnew, -⟩⟩ := c.name_cases hg hc hn' (hi n' hn')
      · exact absurd hrenames hnot
      · obtain rfl := Option.some.inj (hk.symm.trans hn)
        exact hsame ▸ hlacks
      · cases hnew.symm.trans hn

/-- In a session over a snapshot whose indicators have names with the ending of indicators: after
any sequence of runs and lookups, the name of an indicator lacks the ending exactly if a run of the
sequence added it beside a sibling with the default name of its kind, and none has renamed it
since. -/
theorem ending_lacks_if_numbered {snapshot : Snapshot} {loaded : Snapshot.Loaded} {v : Versioning}
    {g : Graph} (hload : snapshot.load = .ok loaded) (hnamed : loaded.model.IndicatorsNamed)
    (hgraph : Graph.ofModel loaded.model v = .ok g) (calls : List Call)
    (hcalls : ∀ c ∈ calls, c.Mediated) {n : Node}
    (hx : ((ofGraph g).after calls).graph.model.node? x = some n) (hn : n.IsIndicator) :
    ¬ Naming.IsIndicatorName n.name ↔
      Stands Call.apply (Call.AddsNumbered x) (Call.Renames x) (ofGraph g) calls := by
  obtain ⟨_, hgraph', hmodel, -, hsound⟩ := exists_sound_of_load hload v
  obtain rfl := Except.ok.inj (hgraph.symm.trans hgraph')
  rw [← after_iff_stands (B := LacksEnding x) hsound.managed hcalls hx hn]
  · exact ⟨fun hl => ⟨n, hx, hl⟩, fun ⟨k, hk, hl⟩ => Option.some.inj (hx.symm.trans hk) ▸ hl⟩
  · rintro hkind ⟨k, hk, hlacks⟩
    exact hlacks (hnamed x k (hmodel ▸ hk) (hkind k hk))
  · exact fun hg hc hkind => Call.lacksEnding_iff hg hc hkind

end Session

namespace Snapshot

open Session (Call)

/-- An object without properties. -/
def plainOrder : Snapshot := shop [.object "Order" none []]

/-- The object, as the facade 0, gets two indicators, the facades 1 and 2. -/
def flagTwice : List Call :=
  [.graph (.facadeFor ⟨0⟩), .run .addProperty ⟨0⟩ (some (.property .indicator)),
    .run .addProperty ⟨0⟩ (some (.property .indicator))]

/-- Both runs are performed, and the second indicator is told apart by a number. -/
theorem exists_graph_plainOrder :
    ∃ loaded g, plainOrder.load = .ok loaded ∧
      Graph.ofModel loaded.model (.chain none) = .ok g ∧ loaded.model.IndicatorsNamed ∧
      ∃ n ∈ ((Session.ofGraph g).after flagTwice).graph.model.node? ⟨5⟩,
        n.attached = true ∧ n.IsIndicator ∧ n.name = "newInd1" := by
  obtain ⟨loaded, g, hload, hgraph, hp⟩ := exists_graph (s := plainOrder) (v := .chain none)
    (p := fun g =>
      decide (g.model.IndicatorsNamed ∧
        ∃ n ∈ ((Session.ofGraph g).after flagTwice).graph.model.node? ⟨5⟩,
          n.attached = true ∧ n.IsIndicator ∧ n.name = "newInd1")) (by decide +kernel)
  obtain ⟨_, hgraph', hmodel, -⟩ := Session.exists_sound_of_load hload (.chain none)
  obtain rfl := Except.ok.inj (hgraph.symm.trans hgraph')
  obtain ⟨hnamed, hindicator⟩ := of_decide_eq_true hp
  exact ⟨loaded, g, hload, hgraph, hmodel ▸ hnamed, hindicator⟩

/-- The second indicator was added beside the first one, and was not renamed since. -/
theorem lacks_plainOrder :
    ∃ loaded g n, plainOrder.load = .ok loaded ∧
      Graph.ofModel loaded.model (.chain none) = .ok g ∧ loaded.model.IndicatorsNamed ∧
      ((Session.ofGraph g).after flagTwice).graph.model.node? ⟨5⟩ = some n ∧ n.IsIndicator ∧
      Outcome.Stands Call.apply (Call.AddsNumbered ⟨5⟩) (Call.Renames ⟨5⟩) (Session.ofGraph g)
        flagTwice := by
  obtain ⟨loaded, g, hload, hgraph, hnamed, n, hn, -, hi, hname⟩ := exists_graph_plainOrder
  have hcalls : ∀ c ∈ flagTwice, c.Mediated := by
    simp [flagTwice, Call.Mediated, Graph.Call.IsLookup]
  refine ⟨loaded, g, n, hload, hgraph, hnamed, hn, hi, ?_⟩
  refine (Session.ending_lacks_if_numbered hload hnamed hgraph flagTwice hcalls hn hi).mp ?_
  rw [hname]
  decide

/-- An attached indicator comes to have a name without the ending, by runs that are performed. -/
theorem indicator_loses_ending :
    ∃ loaded g, plainOrder.load = .ok loaded ∧
      Graph.ofModel loaded.model (.chain none) = .ok g ∧ loaded.model.IndicatorsNamed ∧
      (∀ c ∈ flagTwice, c.Mediated) ∧
      ∃ n ∈ ((Session.ofGraph g).after flagTwice).graph.model.node? ⟨5⟩,
        n.attached = true ∧ n.IsIndicator ∧ ¬ Naming.IsIndicatorName n.name := by
  obtain ⟨loaded, g, hload, hgraph, hnamed, n, hn, ha, hi, hname⟩ := exists_graph_plainOrder
  refine ⟨loaded, g, hload, hgraph, hnamed, ?_, n, hn, ha, hi, ?_⟩
  · simp [flagTwice, Call.Mediated, Graph.Call.IsLookup]
  · rw [hname]
    decide

end Snapshot

end SchemaEditor
