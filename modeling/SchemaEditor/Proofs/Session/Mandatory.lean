import SchemaEditor.Proofs.Session.Writing

/-!
# Properties that are made optional

A property of a required kind is added as mandatory, and no action writes the flag but the one that
sets it. That one asks for a property of any kind, and to make one optional counts as an addition.
So a required property can be made optional, and it stays so until a run makes it mandatory again.
-/

namespace SchemaEditor

/-- The node is a property of a kind that is mandatory from the start. -/
def Node.IsRequired (n : Node) : Prop := n.IsPropertyWith (·.required = true)

instance (n : Node) : Decidable n.IsRequired :=
  inferInstanceAs (Decidable (n.IsPropertyWith _))

namespace Model

/-- The model has a node with this id that is optional. -/
def IsOptional (m : Model) (x : NodeId) : Prop := ∃ n, m.node? x = some n ∧ n.mandatory = false

/-- Every property of a required kind is mandatory. -/
def RequiredMandatory (m : Model) : Prop :=
  ∀ x n, m.node? x = some n → n.IsRequired → n.mandatory = true

instance (m : Model) : Decidable m.RequiredMandatory :=
  decidable_of_iff (∀ x ∈ m.nodeIds, ∀ n ∈ m.node? x, n.IsRequired → n.mandatory = true)
    ⟨fun h x n hn => h x (mem_nodeIds.mpr (lt_of_node? hn)) n hn, fun h x _ n hn => h x n hn⟩

end Model

namespace Session

open SchemaEditor.Graph (Managed)
open Outcome (Stands)

variable {s : Session} {c : Call} {calls : List Call} {x : NodeId} {n' : Node}

/-- A run says of a node whether it is mandatory, and is performed. -/
def Call.Mandates (mandatory : Bool) (x : NodeId) (s : Session) (c : Call) : Prop :=
  ∃ subject, c.Performs s ⟨.setMandatory, subject, some (.flag mandatory)⟩ ∧
    s.graph.attachedNode subject = .ok x

theorem Call.Mandates.unique {a b : Bool} (h : c.Mandates a x s) (h' : c.Mandates b x s) :
    a = b := by
  obtain ⟨_, hperforms, -⟩ := h
  obtain ⟨_, hperforms', -⟩ := h'
  have hparam := congrArg Request.param (hperforms.unique hperforms')
  exact Param.flag.inj (Option.some.inj hparam)

/-- The flag of a node is the one that a call sets, or the one that it had before, or the one that
goes with the kind of a node that was added. -/
theorem Call.mandatory_cases (hg : Managed s.graph) (hc : c.Mediated)
    (hx : (c.apply s).graph.model.node? x = some n') :
    c.Mandates n'.mandatory x s ∨ (∀ mandatory, ¬ c.Mandates mandatory x s) ∧
      ((∃ n, s.graph.model.node? x = some n ∧ n'.mandatory = n.mandatory) ∨
        s.graph.model.node? x = none ∧ (n'.IsRequired → n'.mandatory = true)) := by
  obtain ⟨⟨action, subject, param⟩, hperforms⟩ | ⟨hnone, hmodel⟩ := c.exists_performs_or hg hc
  · obtain ⟨node, hnode, hwrites⟩ := hperforms.writes hg
    -- A run that sets the flag of the node has this very request.
    have hnot (hother : action = .setMandatory → x ≠ node) (mandatory : Bool) :
        ¬ c.Mandates mandatory x s := by
      rintro ⟨_, hperforms', hx'⟩
      have hsame := hperforms.unique hperforms'
      obtain rfl : subject = _ := congrArg Request.subject hsame
      exact hother (congrArg Request.action hsame) (Except.ok.inj (hx'.symm.trans hnode))
    obtain ⟨n, hn, hleaves⟩ | ⟨rfl, hcreates⟩ := hwrites.cases hx
    · obtain ⟨rfl, rfl, hparam⟩ | ⟨hother, hkept⟩ := hleaves.mandatory
      · obtain rfl : param = _ := hparam
        exact .inl ⟨subject, hperforms, hnode⟩
      · exact .inr ⟨hnot hother, .inl ⟨n, hn, hkept⟩⟩
    · have hnew := Model.node?_nextId s.graph.model
      refine .inr ⟨hnot ?_, .inr ⟨hnew, ?_⟩⟩
      · rintro rfl
        exact hcreates.elim
      · rintro ⟨kind, hkind, hrequired⟩
        cases action with
        | addProperty =>
          obtain ⟨kind', -, hkind', hmandatory⟩ := hcreates
          obtain rfl := NodeKind.property.inj (hkind.symm.trans hkind')
          exact hmandatory.trans hrequired
        | addAlias | addEnumValue => cases hkind.symm.trans hcreates
        | _ => exact hcreates.elim
  · rw [hmodel] at hx
    exact .inr ⟨fun _ ⟨_, hperforms, _⟩ => hnone _ hperforms, .inl ⟨n', hx, rfl⟩⟩

/-- A call makes a required property optional if it says so; otherwise it leaves it optional unless
it says that it is mandatory. -/
theorem Call.isOptional_iff (hg : Managed s.graph) (hc : c.Mediated)
    (hrequired : ∀ n', (c.apply s).graph.model.node? x = some n' → n'.IsRequired) :
    (c.apply s).graph.model.IsOptional x ↔
      c.Mandates false x s ∨ s.graph.model.IsOptional x ∧ ¬ c.Mandates true x s := by
  have hext := (c.evolves hg).extends_
  constructor
  · rintro ⟨n', hn', hoptional⟩
    obtain hset | ⟨hnone, ⟨n, hn, hsame⟩ | ⟨-, hmandatory⟩⟩ := c.mandatory_cases hg hc hn'
    · exact .inl (hoptional ▸ hset)
    · exact .inr ⟨⟨n, hn, hsame ▸ hoptional⟩, hnone true⟩
    · rw [hmandatory (hrequired n' hn')] at hoptional
      cases hoptional
  · rintro (hset | ⟨⟨n, hn, hoptional⟩, hnot⟩)
    · obtain ⟨subject, -, hx⟩ := id hset
      obtain ⟨-, n, -, -, hn, -⟩ := Graph.attachedNode_eq_ok_iff.mp hx
      obtain ⟨n', hn', -⟩ := hext.same hn
      obtain hset' | ⟨hnone, -⟩ := c.mandatory_cases hg hc hn'
      · exact ⟨n', hn', hset'.unique hset⟩
      · exact absurd hset (hnone false)
    · obtain ⟨n', hn', -⟩ := hext.same hn
      refine ⟨n', hn', ?_⟩
      obtain hset | ⟨-, ⟨k, hk, hsame⟩ | ⟨hnew, -⟩⟩ := c.mandatory_cases hg hc hn'
      · exact Bool.eq_false_iff.mpr fun htrue => hnot (htrue ▸ hset)
      · obtain rfl := Option.some.inj (hk.symm.trans hn)
        exact hsame.trans hoptional
      · cases hnew.symm.trans hn

/-- In a session over a snapshot whose properties of required kinds are mandatory: after any
sequence of runs and lookups, in a library of any editability, a property of a required kind is
optional exactly if a run of the sequence made it so and none made it mandatory again. -/
theorem optional_if_made_so {snapshot : Snapshot} {loaded : Snapshot.Loaded} {v : Versioning}
    {g : Graph} (hload : snapshot.load = .ok loaded) (hrequired : loaded.model.RequiredMandatory)
    (hgraph : Graph.ofModel loaded.model v = .ok g) (calls : List Call)
    (hcalls : ∀ c ∈ calls, c.Mediated) {n : Node}
    (hx : ((ofGraph g).after calls).graph.model.node? x = some n) (hn : n.IsRequired) :
    n.mandatory = false ↔
      Stands Call.apply (Call.Mandates false x) (Call.Mandates true x) (ofGraph g) calls := by
  obtain ⟨_, hgraph', hmodel, -, hsound⟩ := exists_sound_of_load hload v
  obtain rfl := Except.ok.inj (hgraph.symm.trans hgraph')
  rw [← after_iff_stands (B := fun s => s.graph.model.IsOptional x) hsound.managed hcalls hx hn]
  · exact ⟨fun ho => ⟨n, hx, ho⟩, fun ⟨k, hk, ho⟩ => Option.some.inj (hx.symm.trans hk) ▸ ho⟩
  · rintro hkind ⟨k, hk, hoptional⟩
    cases hoptional.symm.trans (hrequired x k (hmodel ▸ hk) (hkind k hk))
  · exact fun hg hc hkind => Call.isOptional_iff hg hc hkind

end Session

namespace Snapshot

open Session (Call)

/-- The identifier of an object. -/
def idProperty : Property := ⟨.property .idAttribute, "id", none, true, ""⟩

/-- An object that is carried forward into a minor version, and one of a library without earlier
versions, both with an identifier. -/
def identified : Snapshot where
  libraries :=
    [{ name := "Shop", uri := "urn:shop", version := ⟨1, 0, 0⟩, status := .final, managed := false
       lockedBy := none, members := [.object "Order" none []] },
      { name := "Shop", uri := "urn:shop", version := ⟨1, 1, 0⟩, status := .draft, managed := false
        lockedBy := none, members := [.object "Order" (some "Order-1.1") [idProperty]] },
      { name := "Depot", uri := "urn:depot", version := ⟨1, 0, 0⟩, status := .draft
        managed := false, lockedBy := none, members := [.object "Stock" none [idProperty]] }]

/-- The first object is carried forward into a library that takes minor changes only, and the
library of the second one is editable. -/
def identifiedTable : Versioning :=
  .fixed .readOnly [(⟨1⟩, .minorOnly), (⟨2⟩, .editable)] [⟨4⟩]

/-- Both identifiers, as the facades 0 and 1, are made optional. -/
def releaseIds : List Call :=
  [.graph (.facadeFor ⟨8⟩), .graph (.facadeFor ⟨13⟩),
    .run .setMandatory ⟨0⟩ (some (.flag false)), .run .setMandatory ⟨1⟩ (some (.flag false))]

/-- Both runs are performed. -/
theorem exists_graph_identified :
    ∃ loaded g, identified.load = .ok loaded ∧
      Graph.ofModel loaded.model identifiedTable = .ok g ∧ loaded.model.RequiredMandatory ∧
      ∀ x ∈ ([⟨8⟩, ⟨13⟩] : List NodeId),
        ∃ n ∈ ((Session.ofGraph g).after releaseIds).graph.model.node? x,
          n.attached = true ∧ n.IsRequired ∧ n.mandatory = false := by
  obtain ⟨loaded, g, hload, hgraph, hp⟩ := exists_graph (s := identified) (v := identifiedTable)
    (p := fun g =>
      decide (g.model.RequiredMandatory ∧ ∀ x ∈ ([⟨8⟩, ⟨13⟩] : List NodeId),
        ∃ n ∈ ((Session.ofGraph g).after releaseIds).graph.model.node? x,
          n.attached = true ∧ n.IsRequired ∧ n.mandatory = false)) (by decide +kernel)
  obtain ⟨_, hgraph', hmodel, -⟩ := Session.exists_sound_of_load hload identifiedTable
  obtain rfl := Except.ok.inj (hgraph.symm.trans hgraph')
  obtain ⟨hrequired, hoptional⟩ := of_decide_eq_true hp
  exact ⟨loaded, g, hload, hgraph, hmodel ▸ hrequired, hoptional⟩

/-- A run has made the identifier of the object that is carried forward optional. -/
theorem optional_identified :
    ∃ loaded g n, identified.load = .ok loaded ∧
      Graph.ofModel loaded.model identifiedTable = .ok g ∧ loaded.model.RequiredMandatory ∧
      ((Session.ofGraph g).after releaseIds).graph.model.node? ⟨8⟩ = some n ∧ n.IsRequired ∧
      Outcome.Stands Call.apply (Call.Mandates false ⟨8⟩) (Call.Mandates true ⟨8⟩)
        (Session.ofGraph g) releaseIds := by
  obtain ⟨loaded, g, hload, hgraph, hrequired, hoptional⟩ := exists_graph_identified
  obtain ⟨n, hn, -, hreq, hfalse⟩ := hoptional ⟨8⟩ (by simp)
  have hcalls : ∀ c ∈ releaseIds, c.Mediated := by
    simp [releaseIds, Call.Mediated, Graph.Call.IsLookup]
  exact ⟨loaded, g, n, hload, hgraph, hrequired, hn, hreq,
    (Session.optional_if_made_so hload hrequired hgraph releaseIds hcalls hn hreq).mp hfalse⟩

/-- Required properties come to be optional, by runs that are performed on a member that is carried
forward and in an editable library. -/
theorem required_becomes_optional :
    ∃ loaded g, identified.load = .ok loaded ∧
      Graph.ofModel loaded.model identifiedTable = .ok g ∧ loaded.model.RequiredMandatory ∧
      (∀ c ∈ releaseIds, c.Mediated) ∧
      ∀ x ∈ ([⟨8⟩, ⟨13⟩] : List NodeId),
        ∃ n ∈ ((Session.ofGraph g).after releaseIds).graph.model.node? x,
          n.attached = true ∧ n.IsRequired ∧ n.mandatory = false := by
  obtain ⟨loaded, g, hload, hgraph, hrequired, hoptional⟩ := exists_graph_identified
  refine ⟨loaded, g, hload, hgraph, hrequired, ?_, hoptional⟩
  simp [releaseIds, Call.Mediated, Graph.Call.IsLookup]

end Snapshot

end SchemaEditor
