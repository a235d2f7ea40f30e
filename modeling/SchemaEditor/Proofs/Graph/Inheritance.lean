import SchemaEditor.Proofs.Graph.Exposure
import SchemaEditor.Proofs.Graph.Growth

/-!
# What is inherited

What the bases of an object offer to a node depends on the model alone. In a forest all of it exists
and has a name, so that no question for inherited children is refused.
-/

namespace SchemaEditor

namespace Model

variable {m : Model} {x y : NodeId} {candidates : List NodeId}

/-- The nodes that the bases of an object offer to a node of a kind, nearest base first. -/
def offered (m : Model) (x : NodeId) : Facade.Kind → List NodeId
  | .facet role =>
    ((((m.node? x).bind (·.owner)).toList.flatMap m.baseChain).filterMap (m.facet? · role)).flatMap
      fun facet => (m.node? facet).toList.flatMap (·.children)
  | kind => if kind.supportsBase then (m.baseChain x).flatMap m.contributions else []

theorem exists_node?_of_facet? {owner : NodeId} {role : FacetRole}
    (h : m.facet? owner role = some x) : ∃ n, m.node? x = some n := by
  obtain ⟨_, -, hfind⟩ := Option.bind_eq_some_iff.mp h
  have hany := List.find?_some hfind
  obtain ⟨n, hn, -⟩ := (Option.any_eq_true ..).mp hany
  exact ⟨n, hn⟩

theorem Forest.exists_node?_of_mem_offered (hf : Forest m) {kind : Facade.Kind}
    (h : y ∈ m.offered x kind) : ∃ n, m.node? y = some n := by
  unfold offered at h
  split at h
  · obtain ⟨facet, -, h⟩ := List.mem_flatMap.mp h
    obtain ⟨n, hn, hy⟩ := List.mem_flatMap.mp h
    obtain ⟨k, hk, -⟩ := hf.owned (Option.mem_toList.mp hn) hy
    exact ⟨k, hk⟩
  · split at h
    · obtain ⟨base, -, h⟩ := List.mem_flatMap.mp h
      exact exists_node?_of_mem_contributions h
    · cases h

/-- The nodes that a node inherits: those offered to it that have no name of its own children, and
no name of a nearer one. -/
def Inherits (m : Model) (x : NodeId) (nodes : List NodeId) : Prop :=
  ∃ kind own, m.facadeKind? x = some kind ∧ m.childNames x = .ok own ∧
    Graph.unhidden m own (m.offered x kind) = .ok nodes

end Model

namespace Graph

open Outcome (bind_ok)

variable {g : Graph} {f : FacadeId} {x : NodeId} {n : Node} {kind : Facade.Kind}
variable {candidates nodes : List NodeId}

theorem exists_unhidden {m : Model} (hf : m.Forest)
    (h : ∀ x ∈ candidates, ∃ n, m.node? x = some n) (hidden : List String) :
    ∃ nodes, unhidden m hidden candidates = .ok nodes := by
  induction candidates generalizing hidden with
  | nil => exact ⟨[], rfl⟩
  | cons x candidates ih =>
    obtain ⟨n, hn⟩ := h x List.mem_cons_self
    obtain ⟨name, hname⟩ := hf.exists_nodeName hn
    have ih := ih fun y hy => h y (List.mem_cons_of_mem _ hy)
    rw [unhidden, hname, Outcome.ok_bind]
    split
    · exact ih hidden
    · obtain ⟨nodes, hnodes⟩ := ih (name :: hidden)
      exact ⟨x :: nodes, by rw [hnodes]; rfl⟩

/-- The children of nodes that exist. -/
theorem exists_contents {m : Model} (h : ∀ x ∈ nodes, ∃ n, m.node? x = some n) :
    ∃ contents, nodes.mapM (fun x => ofModelResult (m.node x)) = .ok contents ∧
      contents.flatMap (·.children) =
        nodes.flatMap fun x => (m.node? x).toList.flatMap (·.children) := by
  induction nodes with
  | nil => exact ⟨[], rfl, rfl⟩
  | cons x nodes ih =>
    obtain ⟨n, hn⟩ := h x List.mem_cons_self
    obtain ⟨contents, hrun, hchildren⟩ := ih fun y hy => h y (List.mem_cons_of_mem _ hy)
    refine ⟨n :: contents, ?_, ?_⟩
    · rw [List.mapM_cons, ofModelResult_of_ok (Model.node_of_node? hn), Outcome.ok_bind, hrun]
      rfl
    · simp [hn, hchildren]

theorem inheritanceCandidates_of_entry (he : g.facades.entry? f = some ⟨x, kind⟩)
    (hn : g.model.node? x = some n) :
    g.inheritanceCandidates f = .ok (g.model.offered x kind) := by
  rw [inheritanceCandidates, nodeOf_of_entry he, Outcome.ok_bind, kind_of_entry he, Outcome.ok_bind]
  cases kind with
  | facet role =>
    simp only [ofModelResult_of_ok (Model.node_of_node? hn), Outcome.ok_bind]
    cases ho : n.owner with
    | none => simp [Model.offered, hn, ho, pure, Except.pure]
    | some owner =>
      have hfacets : ∀ y ∈ (g.model.baseChain owner).filterMap (g.model.facet? · role),
          ∃ k, g.model.node? y = some k := fun y hy => by
        obtain ⟨base, -, hfacet⟩ := List.mem_filterMap.mp hy
        exact Model.exists_node?_of_facet? hfacet
      obtain ⟨contents, hrun, hchildren⟩ := exists_contents hfacets
      simp only [hrun, Outcome.ok_bind]
      simp [Model.offered, hn, ho, hchildren, pure, Except.pure]
  | _ =>
    simp only [Model.offered]
    split <;> rfl

/-- What a facade inherits, is inherited by its node. -/
theorem exists_inheritedNodes (hg : Managed g) (h : g.Stands f x) :
    ∃ nodes, g.inheritedNodes f = .ok nodes ∧ g.model.Inherits x nodes := by
  obtain ⟨n, kind, hn, -, he⟩ := h.entry hg
  obtain ⟨own, hown⟩ := hg.forest.exists_childNames hn
  obtain ⟨nodes, hnodes⟩ :=
    exists_unhidden hg.forest (fun _ => hg.forest.exists_node?_of_mem_offered) own
  refine ⟨nodes, ?_, kind, own, hg.facades.known he, hown, hnodes⟩
  rw [inheritedNodes, inheritanceCandidates_of_entry he hn, Outcome.ok_bind, nodeOf_of_entry he,
    Outcome.ok_bind, ofModelResult_of_ok hown, Outcome.ok_bind, ofModelResult_of_ok hnodes]

/-- The inherited children of a facade stand for what its node inherits. -/
theorem exists_inheritedChildren (hg : Managed g) (h : g.Stands f x) :
    ∃ ids g' nodes, inheritedChildren f g = .ok ids g' ∧ Evolves IsRegister g g' ∧
      g.model.Inherits x nodes ∧
      List.Forall₂ g'.Stands ids (g.model.facedAmong nodes.eraseDups) := by
  obtain ⟨nodes, hrun, hinherits⟩ := exists_inheritedNodes hg h
  have hexist : ∀ y ∈ nodes, ∃ k, g.model.node? y = some k := fun y hy => by
    obtain ⟨_, _, -, -, hunhidden⟩ := hinherits
    exact exists_node?_of_mem_unhidden hunhidden hy
  obtain ⟨ids, g', hwrap, hev, hstands⟩ := exists_wrapAll hg hexist
  exact ⟨ids, g', nodes, by rw [inheritedChildren, bind_ok (ask_of_ok hrun), hwrap], hev, hinherits,
    hstands⟩

end Graph

end SchemaEditor
