import SchemaEditor.Graph.Structure
import SchemaEditor.Graph.Types
import SchemaEditor.Proofs.Graph.Evolution

/-!
# Queries about facades

What is asked about a facade is answered from its entry in the registry and from its node. In a
managed graph every entry has a node, of its kind.

Asking for facades changes the registry alone, and so do all queries that answer with facades: of
members, children, inherited children, owners, types, bases and users.
-/

namespace SchemaEditor.Graph

open Outcome (bind_ok)

variable {P : Graph → Change → Prop} {g g' : Graph} {id : FacadeId} {e : Facade.Entry} {n : Node}
variable {node : NodeId} {kind : Facade.Kind}

theorem ofModelResult_eq_ok_iff {α : Type} {q : Except Model.Error α} {a : α} :
    ofModelResult q = .ok a ↔ q = .ok a := by
  cases q <;> simp [ofModelResult]

theorem ofModelResult_of_ok {α : Type} {q : Except Model.Error α} {a : α} (h : q = .ok a) :
    ofModelResult q = .ok a :=
  ofModelResult_eq_ok_iff.mpr h

theorem entry_eq_ok_iff : g.entry id = .ok e ↔ g.facades.entry? id = some e := by
  unfold entry
  cases g.facades.entry? id <;> simp

theorem entry_of_none (h : g.facades.entry? id = none) :
    g.entry id = .error (.unknownFacade id) := by
  rw [entry, h]

theorem nodeOf_of_entry (h : g.facades.entry? id = some e) : g.nodeOf id = .ok e.node := by
  rw [nodeOf, entry_eq_ok_iff.mpr h]
  rfl

theorem nodeOf_eq_ok_iff :
    g.nodeOf id = .ok node ↔ ∃ e, g.facades.entry? id = some e ∧ e.node = node := by
  cases h : g.facades.entry? id with
  | none => simp [nodeOf, entry_of_none h]
  | some e => simp [nodeOf_of_entry h]

theorem kind_of_entry (h : g.facades.entry? id = some e) : g.kind id = .ok e.kind := by
  rw [Graph.kind, entry_eq_ok_iff.mpr h]
  rfl

theorem content_of_entry (h : g.facades.entry? id = some e) (hn : g.model.node? e.node = some n) :
    g.content id = .ok n := by
  rw [content, nodeOf_of_entry h]
  exact ofModelResult_of_ok (Model.node_of_node? hn)

theorem editability_of_entry (h : g.facades.entry? id = some e)
    (hn : g.model.node? e.node = some n) :
    g.editability id = .ok (g.versioning.editability g.model n.library) := by
  rw [editability, libraryOf, content_of_entry h hn]
  rfl

theorem isNewToChain_of_entry (h : g.facades.entry? id = some e)
    (hm : g.model.memberOf e.node = .ok node) :
    g.isNewToChain id = .ok (g.versioning.isNewToChain g.model node) := by
  rw [isNewToChain, owningNode, nodeOf_of_entry h, Outcome.ok_bind, ofModelResult_of_ok hm]
  rfl

theorem attachedNode_of_entry (h : g.facades.entry? id = some e)
    (hn : g.model.node? e.node = some n) :
    g.attachedNode id = if n.attached then .ok e.node else .error (.mismatch id .deleted) := by
  rw [attachedNode, nodeOf_of_entry h]
  simp only [Outcome.ok_bind, ofModelResult_of_ok (Model.node_of_node? hn)]
  rfl

/-- A facade whose node is attached. -/
theorem attachedNode_eq_ok_iff :
    g.attachedNode id = .ok node ↔
      ∃ e n, g.facades.entry? id = some e ∧ e.node = node ∧ g.model.node? node = some n ∧
        n.attached = true := by
  constructor
  · intro h
    obtain ⟨node', hnode, h⟩ := Outcome.bind_eq_ok_iff.mp h
    obtain ⟨e, he, rfl⟩ := nodeOf_eq_ok_iff.mp hnode
    obtain ⟨n, hn, h⟩ := Outcome.bind_eq_ok_iff.mp h
    have hn := Model.node_eq_ok_iff.mp (ofModelResult_eq_ok_iff.mp hn)
    cases ha : n.attached with
    | false => simp [ha, throw, throwThe, MonadExceptOf.throw] at h
    | true =>
      rw [ha, if_pos rfl] at h
      obtain rfl := Except.ok.inj h
      exact ⟨e, n, he, rfl, hn, ha⟩
  · rintro ⟨e, n, he, rfl, hn, ha⟩
    rw [attachedNode_of_entry he hn, if_pos ha]

theorem nodeOf_of_attachedNode (h : g.attachedNode id = .ok node) : g.nodeOf id = .ok node := by
  obtain ⟨e, -, he, rfl, -⟩ := attachedNode_eq_ok_iff.mp h
  exact nodeOf_of_entry he

/-! ### Edits that only hand out facades -/

/-- A facade is handed out. -/
def IsRegister (_ : Graph) (c : Change) : Prop := ∃ node, c = .register node

theorem IsRegister.lossless {c : Change} (h : IsRegister g c) : Lossless Steady g c := by
  obtain ⟨node, rfl⟩ := h
  exact ⟨⟨trivial, trivial⟩, nofun⟩

/-- Handing out facades leaves everything but the registry alone. -/
theorem Evolves.of_isRegister (h : Evolves P g g') (hP : ∀ g c, P g c → IsRegister g c) :
    g'.model = g.model ∧ g'.usage = g.usage := by
  refine h.keeps (I := fun k => k.model = g.model ∧ k.usage = g.usage) (fun hk hp hs => ?_)
    ⟨rfl, rfl⟩
  obtain ⟨node, rfl⟩ := hP _ _ hp
  cases hs
  exact hk

theorem Evolves.model_eq (h : Evolves IsRegister g g') : g'.model = g.model :=
  (h.of_isRegister fun _ _ hc => hc).1

/-- A node of a kind with facades has a facade after it was asked for. -/
theorem facade?_eq (hg : Managed g) (hk : g.model.facadeKind? node = some kind) :
    ∃ id g', facade? node g = .ok (some id) g' ∧ Evolves (fun _ c => c = .register node) g g' ∧
      g'.facades.entry? id = some ⟨node, kind⟩ := by
  obtain ⟨n, hn, hkind⟩ := Model.facadeKind?_eq_some_iff.mp hk
  obtain ⟨id, hget, he⟩ | ⟨hfree, hget⟩ := hg.facades.getOrCreate_cases hk
  · refine ⟨id, g, ?_, .refl, he⟩
    simp only [facade?, Model.node_of_node? hn, hkind, hget]
  · refine ⟨⟨g.facades.size⟩, _, ?_, .single rfl (.register hk hfree), ?_⟩
    · simp only [facade?, Model.node_of_node? hn, hkind, hget]
    · rw [Facade.Registry.entry?_insert, if_pos rfl]

theorem facade?_of_kindless (hg : Managed g) {n : Node} (hn : g.model.node? node = some n)
    (hk : Facade.Kind.ofNode? n.kind = none) : facade? node g = .ok none g := by
  have hnone := hg.facades.getOrCreate_eq_none ((Model.facadeKind?_of_node? hn).trans hk)
  simp only [facade?, Model.node_of_node? hn, hk, hnone]

theorem facadeFor_eq (hg : Managed g) (hk : g.model.facadeKind? node = some kind) :
    ∃ id g', facadeFor node g = .ok id g' ∧ Evolves (fun _ c => c = .register node) g g' ∧
      g'.facades.entry? id = some ⟨node, kind⟩ := by
  obtain ⟨id, g', hrun, hev, he⟩ := facade?_eq hg hk
  exact ⟨id, g', by rw [facadeFor, bind_ok hrun]; rfl, hev, he⟩

theorem facadeFor_of_faceless (hg : Managed g) (hn : ∃ n, g.model.node? node = some n)
    (hk : g.model.facadeKind? node = none) : facadeFor node g = .error (.unsupported node) g := by
  obtain ⟨n, hn⟩ := hn
  have hkind := (Model.facadeKind?_of_node? hn).symm.trans hk
  rw [facadeFor, bind_ok (facade?_of_kindless hg hn hkind)]
  rfl

theorem facade?_leads (node : NodeId) : Leads IsRegister (facade? node) := by
  intro g hg
  cases hn : g.model.node? node with
  | none => simpa only [left, facade?, Model.node_of_none hn] using .refl
  | some n =>
    cases hk : Facade.Kind.ofNode? n.kind with
    | none =>
      rw [left, facade?_of_kindless hg hn hk]
      exact .refl
    | some kind =>
      obtain ⟨id, g', hrun, hev, -⟩ := facade?_eq hg ((Model.facadeKind?_of_node? hn).trans hk)
      rw [left, hrun]
      exact hev.mono fun _ _ hc => ⟨node, hc⟩

theorem facadeFor_leads (node : NodeId) : Leads IsRegister (facadeFor node) := by
  refine .bind (facade?_leads node) fun id? => ?_
  cases id? with
  | none => exact .throw _
  | some id => exact .pure id

theorem wrapDistinct_leads (nodes : List NodeId) : Leads IsRegister (wrapDistinct nodes) := by
  induction nodes with
  | nil => exact .pure []
  | cons node nodes ih =>
    exact .bind (facade?_leads node) fun id? => .bind ih fun ids => .pure _

theorem wrapAll_leads (nodes : List NodeId) : Leads IsRegister (wrapAll nodes) :=
  wrapDistinct_leads _

theorem members_leads (library : LibraryId) : Leads IsRegister (members library) :=
  .bind (.ask _) fun _ => wrapAll_leads _

theorem owningMember_leads (id : FacadeId) : Leads IsRegister (owningMember id) :=
  .bind (.ask _) fun _ => facadeFor_leads _

theorem children_leads (id : FacadeId) : Leads IsRegister (children id) :=
  .bind (.ask _) fun _ => .bind (.ask _) fun _ => .bind .get fun _ => wrapAll_leads _

theorem inheritedChildren_leads (id : FacadeId) : Leads IsRegister (inheritedChildren id) :=
  .bind (.ask _) fun _ => wrapAll_leads _

theorem slotFacade?_leads (id : FacadeId) (slot : Usage.Slot) :
    Leads IsRegister (slotFacade? id slot) := by
  refine .bind (.ask _) fun node => .bind .get fun g => ?_
  split
  · exact .pure none
  · exact .bind (facadeFor_leads _) fun _ => .pure _

theorem whereUsed_leads (provider : FacadeId) : Leads IsRegister (whereUsed provider) :=
  .bind (.ask _) fun _ => .bind .get fun _ => wrapAll_leads _

end SchemaEditor.Graph
