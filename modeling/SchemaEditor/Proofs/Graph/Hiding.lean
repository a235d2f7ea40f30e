import SchemaEditor.Proofs.Graph.Detached
import SchemaEditor.Proofs.Graph.Inheritance
import SchemaEditor.Proofs.Snapshot.Faithful

/-!
# Names that hide others

Of the nodes that bases offer, the first of each name is inherited, unless an own child of the node
has the name. So no name is inherited twice, and none that an own child has. Facets that contribute
into the node hide nothing: what is inherited may have the name of one of them.
-/

namespace SchemaEditor

namespace Model

variable {m : Model} {name : String} {nodes : List NodeId} {x y : NodeId}

/-- The first of some nodes that has a name. -/
def FirstNamed (m : Model) (name : String) (nodes : List NodeId) (x : NodeId) : Prop :=
  m.nodeName x = .ok name ∧
    ∃ before after, nodes = before ++ x :: after ∧ ∀ y ∈ before, m.nodeName y ≠ .ok name

theorem firstNamed_iff_find? :
    m.FirstNamed name nodes x ↔
      nodes.find? (fun y => decide (m.nodeName y = .ok name)) = some x := by
  simp [FirstNamed, List.find?_eq_some_iff_append]

theorem FirstNamed.unique (hx : m.FirstNamed name nodes x) (hy : m.FirstNamed name nodes y) :
    x = y :=
  Option.some.inj ((firstNamed_iff_find?.mp hx).symm.trans (firstNamed_iff_find?.mp hy))

theorem exists_firstNamed (hy : y ∈ nodes) (hname : m.nodeName y = .ok name) :
    ∃ x, m.FirstNamed name nodes x := by
  have hsome : (nodes.find? fun y => decide (m.nodeName y = .ok name)).isSome = true :=
    List.find?_isSome.mpr ⟨y, hy, decide_eq_true hname⟩
  obtain ⟨x, hx⟩ := Option.isSome_iff_exists.mp hsome
  exact ⟨x, firstNamed_iff_find?.mpr hx⟩

/-- Only nodes without an owner contribute into others. -/
def OnlyRootsContribute (m : Model) : Prop :=
  ∀ x n, m.node? x = some n → n.contributesTo ≠ none → n.owner = none

end Model

namespace Graph

open Outcome (bind_eq_ok_iff)
open Model (FirstNamed OnlyRootsContribute)

variable {P : Graph → Change → Prop} {g g' : Graph} {f : FacadeId} {x : NodeId} {n : Node}
variable {m : Model} {name : String} {hidden : List String} {candidates nodes : List NodeId}

/-! ### What is not hidden -/

theorem sublist_of_unhidden (h : unhidden m hidden candidates = .ok nodes) :
    nodes.Sublist candidates := by
  induction candidates generalizing hidden nodes with
  | nil =>
    obtain rfl := Except.ok.inj h
    exact .slnil
  | cons c candidates ih =>
    obtain ⟨own, -, h⟩ := bind_eq_ok_iff.mp h
    split at h
    · exact (ih h).cons c
    · obtain ⟨rest, hrest, h⟩ := bind_eq_ok_iff.mp h
      obtain rfl := Except.ok.inj h
      exact (ih hrest).cons_cons c

/-- What is not hidden is the first of its name, and its name is none of those that are hidden from
the start. -/
theorem mem_unhidden_iff (h : unhidden m hidden candidates = .ok nodes)
    (hname : m.nodeName x = .ok name) :
    x ∈ nodes ↔ name ∉ hidden ∧ m.FirstNamed name candidates x := by
  rw [Model.firstNamed_iff_find?]
  induction candidates generalizing hidden nodes with
  | nil =>
    obtain rfl := Except.ok.inj h
    simp
  | cons c candidates ih =>
    obtain ⟨own, hown, h⟩ := bind_eq_ok_iff.mp h
    have hc : decide (m.nodeName c = .ok name) = decide (own = name) := by simp [hown]
    rw [List.find?_cons, hc]
    split at h
    · next hhidden =>
      rw [ih h]
      by_cases hsame : own = name
      · simp [← hsame, hhidden]
      · simp [hsame]
    · next hfree =>
      obtain ⟨rest, hrest, h⟩ := bind_eq_ok_iff.mp h
      obtain rfl := Except.ok.inj h
      rw [List.mem_cons, ih hrest, List.mem_cons, not_or]
      by_cases hsame : own = name
      · subst hsame
        simp [hfree, eq_comm]
      · have hne : x ≠ c := by
          rintro rfl
          exact hsame (Except.ok.inj (hown.symm.trans hname))
        simp [hsame, hne, Ne.symm hsame]

/-- No two nodes that are not hidden have one name. -/
theorem pairwise_of_unhidden (h : unhidden m hidden candidates = .ok nodes) :
    nodes.Pairwise fun x y => m.nodeName x ≠ m.nodeName y := by
  induction candidates generalizing hidden nodes with
  | nil =>
    obtain rfl := Except.ok.inj h
    exact .nil
  | cons c candidates ih =>
    obtain ⟨own, hown, h⟩ := bind_eq_ok_iff.mp h
    split at h
    · exact ih h
    · obtain ⟨rest, hrest, h⟩ := bind_eq_ok_iff.mp h
      obtain rfl := Except.ok.inj h
      refine List.pairwise_cons.mpr ⟨fun y hy hsame => ?_, ih hrest⟩
      rw [hown] at hsame
      exact ((mem_unhidden_iff hrest hsame.symm).mp hy).1 List.mem_cons_self

theorem nodup_of_unhidden (h : unhidden m hidden candidates = .ok nodes) : nodes.Nodup :=
  (pairwise_of_unhidden h).imp fun hne heq => hne (congrArg m.nodeName heq)

/-! ### Names of facades -/

theorem Stands.name_eq_ok_iff (h : g.Stands f x) :
    g.name f = .ok name ↔ g.model.nodeName x = .ok name := by
  obtain ⟨kind, he⟩ := h
  rw [Graph.name, nodeOf_of_entry he, Outcome.ok_bind, ofModelResult_eq_ok_iff]

/-- Facades have the names of the nodes that they stand for. -/
theorem exists_names {ids : List FacadeId} (hg : Managed g) (h : List.Forall₂ g.Stands ids nodes)
    (hdistinct : nodes.Pairwise fun x y => g.model.nodeName x ≠ g.model.nodeName y) :
    ∃ names : List String, ids.map g.name = names.map .ok ∧
      nodes.map g.model.nodeName = names.map .ok ∧ names.Nodup := by
  induction h with
  | nil => exact ⟨[], rfl, rfl, .nil⟩
  | @cons f x ids nodes hf _ ih =>
    obtain ⟨hx, hdistinct⟩ := List.pairwise_cons.mp hdistinct
    obtain ⟨names, hids, hnodes, hnodup⟩ := ih hdistinct
    obtain ⟨n, -, hn, -⟩ := hf.entry hg
    obtain ⟨name, hname⟩ := hg.forest.exists_nodeName hn
    refine ⟨name :: names, ?_, ?_, List.nodup_cons.mpr ⟨fun hmem => ?_, hnodup⟩⟩
    · rw [List.map_cons, List.map_cons, hf.name_eq_ok_iff.mpr hname, hids]
    · rw [List.map_cons, List.map_cons, hname, hnodes]
    · obtain ⟨y, hy, hsame⟩ := List.mem_map.mp (hnodes ▸ List.mem_map_of_mem hmem)
      exact hx y hy (hname.trans hsame.symm)

/-! ### Facades that are inherited -/

/-- No step changes an owner or the target of a contribution, and what is new contributes to
nothing. -/
theorem Evolves.onlyRootsContribute (h : Evolves P g g') (hg : OnlyRootsContribute g.model) :
    OnlyRootsContribute g'.model := by
  intro x n hn hc
  have htarget : n.contributesTo = g.model.target? x := by
    rw [← h.target?_eq, Model.target?, hn, Option.bind_some]
  obtain ⟨t, ht⟩ := Option.ne_none_iff_exists'.mp (htarget ▸ hc)
  obtain ⟨k, hk, hkt⟩ := Option.bind_eq_some_iff.mp ht
  obtain ⟨n', hn', -, howner, -⟩ := h.extends_.same hk
  obtain rfl := Option.some.inj (hn.symm.trans hn')
  exact howner.trans (hg x k hk (by simp [hkt]))

/-- The names of the facades that a facade inherits are different from each other, and from those of
the facades under it that do not contribute into it. -/
theorem exists_inherited_names (hg : Managed g) (hroots : OnlyRootsContribute g.model)
    (h : g.Stands f x) :
    ∃ ids k kids k', ∃ names : List String,
      inheritedChildren f g = .ok ids k ∧ children f g = .ok kids k' ∧
      ids.map k.name = names.map .ok ∧ names.Nodup ∧
      ∀ kid ∈ kids, ∀ name ∈ names, k'.name kid = .ok name →
        ∃ n, k'.content kid = .ok n ∧ n.contributesTo = some x ∧ n.owner = none := by
  obtain ⟨ids, k, nodes, hrun, hev, ⟨kind, own, -, hown, hunhidden⟩, hids⟩ :=
    exists_inheritedChildren hg h
  obtain ⟨kids, k', hrun', hev', hkids⟩ := exists_children hg h
  rw [eraseDups_of_nodup (nodup_of_unhidden hunhidden)] at hids
  have hdistinct : (g.model.facedAmong nodes).Pairwise fun x y =>
      k.model.nodeName x ≠ k.model.nodeName y := by
    rw [hev.model_eq]
    exact (pairwise_of_unhidden hunhidden).sublist List.filter_sublist
  obtain ⟨names, hnames, hnodes, hnodup⟩ := exists_names (hev.managed hg) hids hdistinct
  refine ⟨ids, k, kids, k', names, hrun, hrun', hnames, hnodup, fun kid hkid name hname hsame => ?_⟩
  obtain ⟨y, hy, hstands⟩ := exists_right_of_mem hkids hkid
  obtain ⟨z, hz, hzname⟩ := List.mem_map.mp (hnodes ▸ List.mem_map_of_mem hname)
  rw [hstands.name_eq_ok_iff, hev'.model_eq] at hsame
  rw [hev.model_eq] at hzname
  obtain ⟨n, -, hn, -⟩ := h.entry hg
  obtain ⟨hy, -⟩ := Model.mem_listedUnder.mp hy
  rw [Model.offspring_of_node? hn, List.mem_append] at hy
  obtain hy | hy := hy
  · -- The name of an own child is hidden from the start.
    have hmem := (Model.mem_childNames_iff hn hown).mpr ⟨y, hy, hsame⟩
    exact absurd hmem ((mem_unhidden_iff hunhidden hzname).mp (List.mem_of_mem_filter hz)).1
  · obtain ⟨c, hc, htarget⟩ := Model.exists_target_of_mem_contributions hy
    obtain ⟨kind, he⟩ := hstands
    exact ⟨c, content_of_entry he (hev'.model_eq ▸ hc), htarget, hroots y c hc (by simp [htarget])⟩

end Graph

namespace Snapshot

variable {s : Snapshot} {loaded : Loaded}

theorem onlyRootsContribute_of_load (h : s.load = .ok loaded) :
    Model.OnlyRootsContribute loaded.model :=
  fun _ _ hn hc => owner_eq_none_of_contributesTo h hn hc

/-- In a graph over the model of a snapshot, whatever was asked of it, the facades that a facade
inherits have different names. One of them has the name of a facade under the inheriting one only if
that contributes into it, and then it is no child of it: it has no owner. -/
theorem inherited_names_differ (h : s.load = .ok loaded) (v : Versioning) :
    ∃ g, Graph.ofModel loaded.model v = .ok g ∧ ∀ (calls : List Graph.Call) f x,
      (g.after calls).nodeOf f = .ok x →
      ∃ ids k kids k', ∃ names : List String,
        Graph.inheritedChildren f (g.after calls) = .ok ids k ∧
        Graph.children f (g.after calls) = .ok kids k' ∧
        ids.map k.name = names.map .ok ∧ names.Nodup ∧
        ∀ kid ∈ kids, ∀ name ∈ names, k'.name kid = .ok name →
          ∃ n, k'.content kid = .ok n ∧ n.contributesTo = some x ∧ n.owner = none := by
  obtain ⟨_, hgraph, hg⟩ := Graph.exists_ofModel (whole_of_load h).forest v
  refine ⟨_, hgraph, fun calls f x hnode => ?_⟩
  have hev := Graph.evolves_after hg calls
  obtain ⟨e, he, rfl⟩ := Graph.nodeOf_eq_ok_iff.mp hnode
  exact Graph.exists_inherited_names (hev.managed hg)
    (hev.onlyRootsContribute (onlyRootsContribute_of_load h)) ⟨e.kind, he⟩

/-- An order that extends an offer, each with a facet of the same name that contributes into it. -/
def notedTwice : Snapshot :=
  shop
    [{ Member.object "Order" none [] with baseKey := some "Offer" },
      .object "Offer" none [],
      { Member.object "Notes" none [] with
        kind := .member (.contextualFacet .custom)
        contributesTo := some "Order"
        facets := .empty },
      { Member.object "Notes" (some "OfferNotes") [] with
        kind := .member (.contextualFacet .custom)
        contributesTo := some "Offer"
        facets := .empty }]

/-- The order inherits the notes of the offer. -/
theorem inherited_names_differ_notedTwice :
    ∃ loaded g ids k kids k', ∃ names : List String, notedTwice.load = .ok loaded ∧
      Graph.ofModel loaded.model (.chain none) = .ok g ∧
      let opened := g.after [.facadeFor ⟨0⟩]
      opened.nodeOf ⟨0⟩ = .ok ⟨0⟩ ∧ ids.map k.name = [.ok "Notes"] ∧
      Graph.inheritedChildren ⟨0⟩ opened = .ok ids k ∧
      Graph.children ⟨0⟩ opened = .ok kids k' ∧ ids.map k.name = names.map .ok ∧ names.Nodup ∧
      ∀ kid ∈ kids, ∀ name ∈ names, k'.name kid = .ok name →
        ∃ n, k'.content kid = .ok n ∧ n.contributesTo = some ⟨0⟩ ∧ n.owner = none := by
  obtain ⟨loaded, g, hload, hgraph, hp⟩ := exists_graph (s := notedTwice) (v := .chain none)
    (p := fun g =>
      let opened := g.after [.facadeFor ⟨0⟩]
      decide (opened.nodeOf ⟨0⟩ = .ok ⟨0⟩) &&
        match Graph.inheritedChildren ⟨0⟩ opened with
        | .ok ids k => decide (ids.map k.name = [.ok "Notes"])
        | .error _ _ => false) (by decide +kernel)
  obtain ⟨hnode, hnotes⟩ := (Bool.and_eq_true _ _).mp hp
  obtain ⟨_, hgraph', hall⟩ := inherited_names_differ hload (.chain none)
  obtain rfl := Except.ok.inj (hgraph'.symm.trans hgraph)
  obtain ⟨ids, k, kids, k', names, hrun, hnames⟩ :=
    hall [.facadeFor ⟨0⟩] ⟨0⟩ ⟨0⟩ (of_decide_eq_true hnode)
  rw [hrun] at hnotes
  exact ⟨loaded, _, ids, k, kids, k', names, hload, hgraph, of_decide_eq_true hnode,
    of_decide_eq_true hnotes, hrun, hnames⟩

/-- The notes that contribute into the order itself do not hide those of the offer: it has both. -/
theorem own_contribution_hides_nothing :
    ∃ loaded g ids k kids k', notedTwice.load = .ok loaded ∧
      Graph.ofModel loaded.model (.chain none) = .ok g ∧
      let opened := g.after [.facadeFor ⟨0⟩]
      Graph.inheritedChildren ⟨0⟩ opened = .ok ids k ∧ Graph.children ⟨0⟩ opened = .ok kids k' ∧
      ∃ id ∈ ids, ∃ kid ∈ kids, k.name id = .ok "Notes" ∧ k'.name kid = .ok "Notes" := by
  obtain ⟨loaded, g, hload, hgraph, hp⟩ := exists_graph (s := notedTwice) (v := .chain none)
    (p := fun g =>
      match Graph.inheritedChildren ⟨0⟩ (g.after [.facadeFor ⟨0⟩]),
        Graph.children ⟨0⟩ (g.after [.facadeFor ⟨0⟩]) with
      | .ok ids k, .ok kids k' => decide (∃ id ∈ ids, ∃ kid ∈ kids,
          k.name id = .ok "Notes" ∧ k'.name kid = .ok "Notes")
      | _, _ => false) (by decide +kernel)
  split at hp
  · next ids k kids k' hrun hrun' =>
    exact ⟨loaded, g, ids, k, kids, k', hload, hgraph, hrun, hrun', of_decide_eq_true hp⟩
  · cases hp

end Snapshot

end SchemaEditor
