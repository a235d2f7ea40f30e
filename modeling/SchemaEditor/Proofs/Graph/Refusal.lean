import SchemaEditor.Proofs.Graph.Detached
import SchemaEditor.Proofs.Graph.Identity
import SchemaEditor.Proofs.Graph.WhereUsed

/-!
# Refused calls

A call may write to the model, to the index and to the registry one after the other, and each of the
three may refuse. On a managed graph whose libraries list its members, whatever a call asks first
decides: from its first write on nothing is refused any more. Edits are `Atomic` for this reason,
and so are lookups, because the nodes that they lead to are all known before the first of their
facades is handed out.
-/

namespace SchemaEditor

namespace Model

variable {m : Model} {id x : NodeId}

theorem exists_target_of_mem_contributions {target : NodeId} (h : x ∈ m.contributions target) :
    ∃ n, m.node? x = some n ∧ n.contributesTo = some target := by
  simp only [contributions, List.mem_filter, Option.any_eq_true, Bool.and_eq_true,
    decide_eq_true_eq] at h
  obtain ⟨-, n, hn, -, htarget⟩ := h
  exact ⟨n, hn, htarget⟩

theorem exists_node?_of_mem_contributions {target : NodeId} (h : x ∈ m.contributions target) :
    ∃ n, m.node? x = some n := by
  obtain ⟨n, hn, -⟩ := exists_target_of_mem_contributions h
  exact ⟨n, hn⟩

end Model

namespace Graph

open Outcome (bind_ok bind_error bind_eq_ok_iff)
open Model (Shelved)

variable {α β : Type} {P : Graph → Change → Prop} {g g' : Graph} {err : Error}
variable {id : FacadeId} {x node : NodeId} {nodes : List NodeId}

namespace Atomic

theorem map {e : Edit α} (h : Atomic P e g) (f : α → β) : Atomic P (f <$> e) g := by
  obtain ⟨a, g', he, hev⟩ | ⟨err, he⟩ := h
  · exact .of_ok (Outcome.run_map_eq_ok_iff.mpr ⟨a, he, rfl⟩) hev
  · refine .refused err ?_
    show EStateM.map f e g = _
    rw [EStateM.map, he]

/-- What a query refuses is refused before anything has changed. -/
theorem ask_bind {q : Graph → Except Error α} {f : α → Edit β}
    (h : ∀ a, q g = .ok a → Atomic P (f a) g) : Atomic P (ask q >>= f) g := by
  cases hq : q g with
  | error err => exact .refused err (bind_error (ask_of_error hq))
  | ok a =>
    rw [Atomic, Succeeds, bind_ok (ask_of_ok hq)]
    exact h a hq

theorem get_bind {f : Graph → Edit β} (h : Atomic P (f g) g) : Atomic P (get >>= f) g := h

theorem eq_of_error {e : Edit α} (h : Atomic P e g) (he : e g = .error err g') : g' = g := by
  obtain ⟨_, _, hok, -⟩ | ⟨_, hrefused⟩ := h
  · cases hok.symm.trans he
  · exact (EStateM.Result.error.inj (hrefused.symm.trans he)).2.symm

end Atomic

/-! ### Asking for facades -/

/-- Asking for the facade of a node that exists is not refused. -/
theorem facade?_succeeds (hg : Managed g) (hx : ∃ n, g.model.node? x = some n) :
    Succeeds IsRegister (facade? x) g := by
  obtain ⟨n, hn⟩ := hx
  cases hk : Facade.Kind.ofNode? n.kind with
  | none => exact ⟨none, g, facade?_of_kindless hg hn hk, .refl⟩
  | some kind =>
    obtain ⟨facade, g', hrun, hev, -⟩ :=
      facade?_eq hg ((Model.facadeKind?_of_node? hn).trans hk)
    exact ⟨some facade, g', hrun, hev.mono fun _ _ hc => ⟨x, hc⟩⟩

theorem facadeFor_atomic (hg : Managed g) (node : NodeId) :
    Atomic IsRegister (facadeFor node) g := by
  cases hn : g.model.node? node with
  | none =>
    have hask : facade? node g = .error (.model (.unknownNode node)) g := by
      rw [facade?, Model.node_of_none hn]
    exact .refused _ (by rw [facadeFor, bind_error hask])
  | some n =>
    cases hk : Facade.Kind.ofNode? n.kind with
    | none =>
      exact .refused (.unsupported node)
        (by rw [facadeFor, bind_ok (facade?_of_kindless hg hn hk)]; rfl)
    | some kind =>
      obtain ⟨facade, g', hrun, hev, -⟩ :=
        facadeFor_eq hg ((Model.facadeKind?_of_node? hn).trans hk)
      exact .of_ok hrun (hev.mono fun _ _ hc => ⟨node, hc⟩)

/-- Nodes that exist are wrapped one after the other without a refusal on the way. -/
theorem wrapDistinct_succeeds (hg : Managed g)
    (hnodes : ∀ x ∈ nodes, ∃ n, g.model.node? x = some n) :
    Succeeds IsRegister (wrapDistinct nodes) g := by
  induction nodes generalizing g with
  | nil => exact ⟨[], g, rfl, .refl⟩
  | cons x nodes ih =>
    obtain ⟨id?, g₁, hask, hev⟩ := facade?_succeeds hg (hnodes x List.mem_cons_self)
    have hrest : ∀ y ∈ nodes, ∃ n, g₁.model.node? y = some n := fun y hy => by
      rw [hev.model_eq]
      exact hnodes y (List.mem_cons_of_mem _ hy)
    obtain ⟨ids, g', hwrap, hev'⟩ := ih (hev.managed hg) hrest
    exact ⟨id?.toList ++ ids, g', by rw [wrapDistinct, bind_ok hask, bind_ok hwrap]; rfl,
      hev.trans hev'⟩

theorem wrapAll_atomic (hg : Managed g) (hnodes : ∀ x ∈ nodes, ∃ n, g.model.node? x = some n) :
    Atomic IsRegister (wrapAll nodes) g :=
  .inl (wrapDistinct_succeeds hg fun x hx => hnodes x (List.mem_eraseDups.mp hx))

/-! ### Lookups -/

theorem members_atomic (hg : Managed g) (hs : Shelved g.model) (library : LibraryId) :
    Atomic IsRegister (members library) g := by
  refine .ask_bind fun l hl => wrapAll_atomic hg fun x hx => ?_
  obtain ⟨n, hn, -⟩ :=
    hs.member (Model.library_eq_ok_iff.mp (ofModelResult_eq_ok_iff.mp hl)) hx
  exact ⟨n, hn⟩

theorem owningMember_atomic (hg : Managed g) (id : FacadeId) :
    Atomic IsRegister (owningMember id) g :=
  .ask_bind fun top _ => facadeFor_atomic hg top

theorem children_atomic (hg : Managed g) (id : FacadeId) : Atomic IsRegister (children id) g := by
  refine .ask_bind fun node _ => .ask_bind fun n hn => wrapAll_atomic hg fun x hx => ?_
  obtain hx | hx := List.mem_append.mp hx
  · have hn := Model.node_eq_ok_iff.mp (ofModelResult_eq_ok_iff.mp hn)
    obtain ⟨k, hk, -⟩ := hg.forest.owned hn hx
    exact ⟨k, hk⟩
  · exact Model.exists_node?_of_mem_contributions hx

/-- What is not hidden has a name. -/
theorem exists_node?_of_mem_unhidden {m : Model} {hidden : List String} {candidates : List NodeId}
    (h : unhidden m hidden candidates = .ok nodes) (hx : x ∈ nodes) :
    ∃ n, m.node? x = some n := by
  induction candidates generalizing hidden nodes with
  | nil =>
    obtain rfl := Except.ok.inj h
    cases hx
  | cons c candidates ih =>
    obtain ⟨name, hname, h⟩ := bind_eq_ok_iff.mp h
    split at h
    · exact ih h hx
    · obtain ⟨rest, hrest, h⟩ := bind_eq_ok_iff.mp h
      obtain rfl := Except.ok.inj h
      obtain rfl | hx := List.mem_cons.mp hx
      · exact Model.exists_node?_of_nodeName hname
      · exact ih hrest hx

theorem inheritedChildren_atomic (hg : Managed g) (id : FacadeId) :
    Atomic IsRegister (inheritedChildren id) g := by
  refine .ask_bind fun nodes hnodes => wrapAll_atomic hg fun x hx => ?_
  obtain ⟨candidates, -, hnodes⟩ := bind_eq_ok_iff.mp hnodes
  obtain ⟨node, -, hnodes⟩ := bind_eq_ok_iff.mp hnodes
  obtain ⟨own, -, hnodes⟩ := bind_eq_ok_iff.mp hnodes
  exact exists_node?_of_mem_unhidden (ofModelResult_eq_ok_iff.mp hnodes) hx

theorem slotFacade?_atomic (hg : Managed g) (id : FacadeId) (slot : Usage.Slot) :
    Atomic IsRegister (slotFacade? id slot) g := by
  refine .ask_bind fun node _ => .get_bind ?_
  split
  · exact .of_ok rfl .refl
  · exact (facadeFor_atomic hg _).map some

theorem whereUsed_atomic (hg : Managed g) (id : FacadeId) :
    Atomic IsRegister (whereUsed id) g :=
  .ask_bind fun _ _ => wrapAll_atomic hg fun _ htop => hg.exists_node?_of_mem_whereUsed htop

/-! ### Calls -/

/-- A call that is refused leaves the graph as it was. -/
theorem Call.eq_of_refused (hg : Managed g) (hs : Shelved g.model) {c : Call}
    (h : c.answer g = .error err g') : g' = g := by
  cases c with
  | facadeFor node => exact ((facadeFor_atomic hg node).map _).eq_of_error h
  | members library => exact (members_atomic hg hs library).eq_of_error h
  | owningMember id => exact ((owningMember_atomic hg id).map _).eq_of_error h
  | children id => exact (children_atomic hg id).eq_of_error h
  | inheritedChildren id => exact (inheritedChildren_atomic hg id).eq_of_error h
  | assignedType user => exact ((slotFacade?_atomic hg user .type).map _).eq_of_error h
  | baseType member => exact ((slotFacade?_atomic hg member .base).map _).eq_of_error h
  | whereUsed provider => exact (whereUsed_atomic hg provider).eq_of_error h
  | setName id name => exact ((setName_atomic hg id name).map _).eq_of_error h
  | setDocumentation id field text =>
    exact ((setDocumentation_atomic g id field text).map _).eq_of_error h
  | setMandatory id mandatory => exact ((setMandatory_atomic g id mandatory).map _).eq_of_error h
  | addProperty id kind name => exact ((addProperty_atomic hg id kind name).map _).eq_of_error h
  | addAlias id name => exact ((addAlias_atomic hg id name).map _).eq_of_error h
  | addEnumValue id literal => exact ((addEnumValue_atomic hg id literal).map _).eq_of_error h
  | delete id => exact ((delete_atomic hg id).map _).eq_of_error h
  | assignType user provider => exact ((assignType_atomic hg user provider).map _).eq_of_error h
  | unassignType user => exact ((clearSlot_atomic hg user .type).map _).eq_of_error h
  | setBaseType member base => exact ((setBaseType_atomic hg member base).map _).eq_of_error h
  | clearBaseType member => exact ((clearSlot_atomic hg member .base).map _).eq_of_error h

end Graph

namespace Snapshot

open SchemaEditor.Graph (exists_ofModel evolves_after)

variable {s : Snapshot} {loaded : Loaded}

/-- Over the model of a snapshot there is a graph, and whatever was asked of it before, a call that
is refused leaves it exactly as it was: the model, the index, and the facades handed out. -/
theorem refused_call_changes_nothing (h : s.load = .ok loaded) (v : Versioning) :
    ∃ g, Graph.ofModel loaded.model v = .ok g ∧
      ∀ (calls : List Graph.Call) (c : Graph.Call) (err : Graph.Error) (g' : Graph),
        c.answer (g.after calls) = .error err g' → g' = g.after calls := by
  have hw := whole_of_load h
  obtain ⟨_, hgraph, hg⟩ := exists_ofModel hw.forest v
  refine ⟨_, hgraph, fun calls c err g' hrefused => ?_⟩
  have hev := evolves_after hg calls
  exact c.eq_of_refused (hev.managed hg) (hev.shelved hw.forest hw.shelved) hrefused

/-- The deleted order gets no name any more, and asking for one leaves the graph as it was. -/
theorem refused_call_changes_nothing_contributedNotes :
    ∃ loaded g err g', contributedNotes.load = .ok loaded ∧
      Graph.ofModel loaded.model (.chain none) = .ok g ∧
      (Graph.Call.setName ⟨0⟩ "Purchase").answer (g.after orderDeleted) = .error err g' ∧
      g' = g.after orderDeleted := by
  obtain ⟨loaded, g, hload, hgraph, hp⟩ := exists_graph (s := contributedNotes) (v := .chain none)
    (p := fun g => match (Graph.Call.setName ⟨0⟩ "Purchase").answer (g.after orderDeleted) with
      | .ok _ _ => false
      | .error _ _ => true) (by decide +kernel)
  obtain ⟨g₀, hgraph₀, hcalls⟩ := refused_call_changes_nothing hload (.chain none)
  obtain rfl := Except.ok.inj (hgraph₀.symm.trans hgraph)
  cases hrun : (Graph.Call.setName ⟨0⟩ "Purchase").answer (g₀.after orderDeleted) with
  | ok => simp [hrun] at hp
  | error err g' => exact ⟨loaded, g₀, err, g', hload, hgraph, hrun, hcalls _ _ _ _ hrun⟩

end Snapshot

end SchemaEditor
