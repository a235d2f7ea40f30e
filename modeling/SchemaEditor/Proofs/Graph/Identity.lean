import SchemaEditor.Proofs.Facade.Call
import SchemaEditor.Proofs.Graph.Extension
import SchemaEditor.Proofs.Graph.Footprint

/-!
# Facades are identities

A facade that was handed out for a node is the facade of this node for ever. `Call.answer` is what
a call answers with, as facades, and `Call.route` are the nodes that the call leads to, read off
the graph before it. What connects the two is the registry of any later graph: it gives these
facades for these nodes. So two ways to a node lead to one facade, whenever they are taken.
-/

namespace SchemaEditor.Graph

open Outcome (bind_ok run_bind_eq_ok_iff run_map_eq_ok_iff)

variable {P : Graph → Change → Prop} {g g' : Graph} {c : Change} {id facade : FacadeId}
variable {x node : NodeId} {nodes more : List NodeId} {ids ids' : List FacadeId} {n : Node}
variable {kind : NodeKind} {k : Facade.Kind} {name : String}

/-! ### The facades of nodes -/

/-- The facades are those of the nodes, in order, and only nodes of kinds without facades have
none. -/
structure Wraps (g : Graph) (nodes : List NodeId) (ids : List FacadeId) : Prop where
  facades : ids = nodes.filterMap g.facades.get?
  complete : ∀ x ∈ nodes, ∃ n, g.model.node? x = some n ∧
    (g.facades.get? x = none → Facade.Kind.ofNode? n.kind = none)

namespace Wraps

theorem nil (g : Graph) : g.Wraps [] [] := ⟨rfl, nofun⟩

theorem append (h : g.Wraps nodes ids) (h' : g.Wraps more ids') :
    g.Wraps (nodes ++ more) (ids ++ ids') where
  facades := by rw [List.filterMap_append, ← h.facades, ← h'.facades]
  complete x hx := (List.mem_append.mp hx).elim (h.complete x) (h'.complete x)

theorem of_entry (hg : Managed g) {e : Facade.Entry} (he : g.facades.entry? id = some e) :
    g.Wraps [e.node] [id] := by
  have hget := hg.facades.get?_of_entry he
  obtain ⟨n, hn, -⟩ := Model.facadeKind?_eq_some_iff.mp (hg.facades.known he)
  refine ⟨by simp [hget], fun x hx => ?_⟩
  obtain rfl := List.mem_singleton.mp hx
  exact ⟨n, hn, fun hnone => by cases hnone.symm.trans hget⟩

theorem of_kindless (hg : Managed g) (hn : g.model.node? x = some n)
    (hk : Facade.Kind.ofNode? n.kind = none) : g.Wraps [x] [] := by
  have hnone := hg.facades.get?_eq_none ((Model.facadeKind?_of_node? hn).trans hk)
  refine ⟨by simp [hnone], fun y hy => ?_⟩
  obtain rfl := List.mem_singleton.mp hy
  exact ⟨n, hn, fun _ => hk⟩

end Wraps

theorem Step.facades_continue (h : Step g c g') : g.facades.Continues g'.facades := by
  cases h with
  | register _ hfree => exact .insert hfree _
  | _ => exact .refl _

theorem Evolves.facades_continue (h : Evolves P g g') : g.facades.Continues g'.facades :=
  h.keeps (I := fun k => g.facades.Continues k.facades)
    (fun hk _ hs => hk.trans hs.facades_continue) (.refl _)

/-- The facades of nodes are theirs for ever, and a node of a kind without facades never has one. -/
theorem Evolves.wraps (h : Evolves P g g') (hg : Managed g) (hw : g.Wraps nodes ids) :
    g'.Wraps nodes ids := by
  have later (x) (hx : x ∈ nodes) : ∃ n, g'.model.node? x = some n ∧
      (g'.facades.get? x = none → Facade.Kind.ofNode? n.kind = none) ∧
      g'.facades.get? x = g.facades.get? x := by
    obtain ⟨n, hn, hnone⟩ := hw.complete x hx
    obtain ⟨n', hn', hkind, -⟩ := h.extends_.same hn
    cases hget : g.facades.get? x with
    | some id =>
      have hget' := h.facades_continue.get hget
      exact ⟨n', hn', fun hnone => (by cases hnone.symm.trans hget'), hget'⟩
    | none =>
      have hk : Facade.Kind.ofNode? n'.kind = none := by rw [hkind, hnone hget]
      exact ⟨n', hn', fun _ => hk, (h.managed hg).facades.get?_eq_none
        ((Model.facadeKind?_of_node? hn').trans hk)⟩
  constructor
  · rw [hw.facades]
    apply List.filterMap_congr
    intro x hx
    obtain ⟨-, -, -, hget⟩ := later x hx
    exact hget.symm
  · intro x hx
    obtain ⟨n, hn, hnone, -⟩ := later x hx
    exact ⟨n, hn, hnone⟩

/-! ### Asking for facades -/

theorem facade?_wraps (hg : Managed g) {id? : Option FacadeId} (h : facade? node g = .ok id? g') :
    Evolves IsRegister g g' ∧ g'.Wraps [node] id?.toList := by
  have hev := facade?_leads node g hg
  rw [left, h] at hev
  refine ⟨hev, ?_⟩
  cases hn : g.model.node? node with
  | none => simp [facade?, Model.node_of_none hn] at h
  | some n =>
    cases hk : Facade.Kind.ofNode? n.kind with
    | none =>
      obtain ⟨rfl, rfl⟩ := EStateM.Result.ok.inj ((facade?_of_kindless hg hn hk).symm.trans h)
      exact .of_kindless hg hn hk
    | some kind =>
      obtain ⟨id, _, hrun, -, he⟩ := facade?_eq hg ((Model.facadeKind?_of_node? hn).trans hk)
      obtain ⟨rfl, rfl⟩ := EStateM.Result.ok.inj (hrun.symm.trans h)
      exact .of_entry (hev.managed hg) he

theorem facadeFor_wraps (hg : Managed g) (h : facadeFor node g = .ok id g') :
    g'.Wraps [node] [id] := by
  rw [facadeFor] at h
  obtain ⟨id?, g₁, hask, h⟩ := run_bind_eq_ok_iff.mp h
  cases id? with
  | none => cases h
  | some id =>
    cases h
    exact (facade?_wraps hg hask).2

theorem wrapDistinct_wraps (hg : Managed g) (h : wrapDistinct nodes g = .ok ids g') :
    g'.Wraps nodes ids := by
  induction nodes generalizing g g' ids with
  | nil =>
    obtain ⟨rfl, rfl⟩ := EStateM.Result.ok.inj h
    exact .nil g
  | cons x nodes ih =>
    rw [wrapDistinct] at h
    obtain ⟨id?, g₁, hask, h⟩ := run_bind_eq_ok_iff.mp h
    obtain ⟨rest, g₂, hrest, h⟩ := run_bind_eq_ok_iff.mp h
    obtain ⟨rfl, rfl⟩ := EStateM.Result.ok.inj h
    obtain ⟨hev, hw⟩ := facade?_wraps hg hask
    have hg₁ := hev.managed hg
    have hlater := wrapDistinct_leads nodes g₁ hg₁
    rw [left, hrest] at hlater
    exact (hlater.wraps hg₁ hw).append (ih hg₁ hrest)

theorem wrapAll_wraps (hg : Managed g) (h : wrapAll nodes g = .ok ids g') :
    g'.Wraps nodes.eraseDups ids :=
  wrapDistinct_wraps hg h

/-! ### Additions -/

theorem addNamedChild_wraps (hg : Managed g) (hk : Facade.Kind.ofNode? kind = some k)
    (h : addNamedChild id kind name g = .ok facade g') : g'.Wraps [g.model.nextId] [facade] := by
  have hsteps := h
  rw [addNamedChild] at hsteps
  obtain ⟨owner, _, hask, -⟩ := run_bind_eq_ok_iff.mp hsteps
  obtain ⟨hnode, rfl⟩ := ask_eq_ok_iff.mp hask
  obtain ⟨-, g₁, -, -, hstep, hev, he⟩ := steps_of_addNamedChild hg hnode hk h
  exact .of_entry (hev.managed (hstep.managed hg)) he

theorem addAlias_wraps (hg : Managed g) (h : addAlias id name g = .ok facade g') :
    g'.Wraps [g.model.nextId] [facade] := by
  have hkind := h
  rw [addAlias] at hkind
  obtain ⟨kind, _, hask, hrest⟩ := run_bind_eq_ok_iff.mp hkind
  obtain ⟨hkind, rfl⟩ := ask_eq_ok_iff.mp hask
  cases hs : kind.supportsAliases with
  | false =>
    simp only [hs, Bool.not_false, if_true] at hrest
    cases hrest
  | true =>
    rw [addAlias_eq_addNamedChild hkind hs] at h
    exact addNamedChild_wraps hg (k := .aliasName) rfl h

theorem addEnumValue_wraps (hg : Managed g) (h : addEnumValue id name g = .ok facade g') :
    g'.Wraps [g.model.nextId] [facade] := by
  have hkind := h
  rw [addEnumValue] at hkind
  obtain ⟨kind, _, hask, hrest⟩ := run_bind_eq_ok_iff.mp hkind
  obtain ⟨hkind, rfl⟩ := ask_eq_ok_iff.mp hask
  cases hs : kind.isEnumeration with
  | false =>
    simp only [hs, Bool.not_false, if_true] at hrest
    cases hrest
  | true =>
    rw [addEnumValue_eq_addNamedChild hkind hs] at h
    exact addNamedChild_wraps hg (k := .valueLiteral) rfl h

theorem addProperty_wraps {kind : PropertyKind} {name : Option String} (hg : Managed g)
    (h : addProperty id kind name g = .ok facade g') : g'.Wraps [g.model.nextId] [facade] := by
  obtain ⟨container, hc⟩ := container_of_addProperty h
  obtain ⟨_, _, hrun, hev, he⟩ := addProperty_eq hg hc name
  obtain ⟨rfl, rfl⟩ := EStateM.Result.ok.inj (hrun.symm.trans h)
  exact .of_entry (hev.managed hg) he

/-! ### Calls -/

namespace Call

/-- A call with the facades that it answers with. -/
def answer : Call → Edit (List FacadeId)
  | facadeFor node => (fun id => [id]) <$> Graph.facadeFor node
  | members library => Graph.members library
  | owningMember id => (fun id => [id]) <$> Graph.owningMember id
  | children id => Graph.children id
  | inheritedChildren id => Graph.inheritedChildren id
  | assignedType user => Option.toList <$> Graph.assignedType? user
  | baseType member => Option.toList <$> Graph.baseType? member
  | whereUsed provider => Graph.whereUsed provider
  | setName id name => (fun _ => []) <$> Graph.setName id name
  | setDocumentation id field text => (fun _ => []) <$> Graph.setDocumentation id field text
  | setMandatory id mandatory => (fun _ => []) <$> Graph.setMandatory id mandatory
  | addProperty id kind name => (fun id => [id]) <$> Graph.addProperty id kind name
  | addAlias id name => (fun id => [id]) <$> Graph.addAlias id name
  | addEnumValue id literal => (fun id => [id]) <$> Graph.addEnumValue id literal
  | delete id => (fun _ => []) <$> Graph.delete id
  | assignType user provider => (fun _ => []) <$> Graph.assignType user provider
  | unassignType user => (fun _ => []) <$> Graph.unassignType user
  | setBaseType member base => (fun _ => []) <$> Graph.setBaseType member base
  | clearBaseType member => (fun _ => []) <$> Graph.clearBaseType member

/-- The nodes that a call leads to; those that it adds are new. -/
def route (g : Graph) : Call → Except Error (List NodeId)
  | facadeFor node => return [node]
  | members library => return (← ofModelResult (g.model.library library)).members
  | owningMember id => return [← g.owningNode id]
  | children id => do
    let node ← g.nodeOf id
    return (← ofModelResult (g.model.node node)).children ++ g.model.contributions node
  | inheritedChildren id => g.inheritedNodes id
  | assignedType user => return (g.usage.provider? ⟨← g.nodeOf user, .type⟩).toList
  | baseType member => return (g.usage.provider? ⟨← g.nodeOf member, .base⟩).toList
  | whereUsed provider => return g.usage.whereUsed (← g.nodeOf provider)
  | addProperty .. | addAlias .. | addEnumValue .. => return [g.model.nextId]
  | _ => return []

theorem left_map {α β : Type} (f : α → β) (e : Edit α) (g : Graph) :
    left (f <$> e) g = left e g := by
  show left (EStateM.map f e) g = _
  rw [left, EStateM.map, left]
  cases e g <;> rfl

theorem left_answer (c : Call) (g : Graph) : left c.answer g = c.apply g := by
  cases c <;> first | exact left_map _ _ g | rfl

theorem apply_of_answer {c : Call} (h : c.answer g = .ok ids g') : c.apply g = g' := by
  rw [← left_answer, left, h]

theorem slotFacade?_wraps {slot : Usage.Slot} {id? : Option FacadeId} (hg : Managed g)
    (h : slotFacade? id slot g = .ok id? g') :
    ∃ node, g.nodeOf id = .ok node ∧ g'.Wraps (g.usage.provider? ⟨node, slot⟩).toList id?.toList := by
  rw [slotFacade?] at h
  obtain ⟨node, _, hask, h⟩ := run_bind_eq_ok_iff.mp h
  obtain ⟨hnode, rfl⟩ := ask_eq_ok_iff.mp hask
  refine ⟨node, hnode, ?_⟩
  obtain ⟨g₁, _, hget, h⟩ := run_bind_eq_ok_iff.mp h
  obtain ⟨rfl, rfl⟩ := EStateM.Result.ok.inj hget
  cases hp : g.usage.provider? ⟨node, slot⟩ with
  | none =>
    simp only [hp] at h
    obtain ⟨rfl, rfl⟩ := EStateM.Result.ok.inj h
    exact .nil g
  | some p =>
    simp only [hp] at h
    obtain ⟨id, _, hfor, h⟩ := run_bind_eq_ok_iff.mp h
    obtain ⟨rfl, rfl⟩ := EStateM.Result.ok.inj h
    exact facadeFor_wraps hg hfor

theorem eraseDups_toList {α : Type} [BEq α] [LawfulBEq α] (a? : Option α) :
    a?.toList.eraseDups = a?.toList := by
  cases a? <;> simp [List.eraseDups_cons]

/-- A call that succeeds answers with the facades of the nodes that it leads to, each once. -/
theorem wraps_of_answer (hg : Managed g) {c : Call} (h : c.answer g = .ok ids g') :
    ∃ nodes, c.route g = .ok nodes ∧ g'.Wraps nodes.eraseDups ids := by
  have one {e : Edit FacadeId} {x : NodeId} (hroute : c.route g = .ok [x])
      (h : ((fun id => [id]) <$> e) g = .ok ids g')
      (hwraps : ∀ {id}, e g = .ok id g' → g'.Wraps [x] [id]) :
      ∃ nodes, c.route g = .ok nodes ∧ g'.Wraps nodes.eraseDups ids := by
    obtain ⟨id, hrun, rfl⟩ := run_map_eq_ok_iff.mp h
    exact ⟨[x], hroute, hwraps hrun⟩
  have slot {id : FacadeId} {slot : Usage.Slot}
      (hroute : c.route g = do return (g.usage.provider? ⟨← g.nodeOf id, slot⟩).toList)
      (h : (Option.toList <$> slotFacade? id slot) g = .ok ids g') :
      ∃ nodes, c.route g = .ok nodes ∧ g'.Wraps nodes.eraseDups ids := by
    obtain ⟨id?, hrun, rfl⟩ := run_map_eq_ok_iff.mp h
    obtain ⟨node, hnode, hw⟩ := slotFacade?_wraps hg hrun
    refine ⟨(g.usage.provider? ⟨node, slot⟩).toList, by rw [hroute, hnode]; rfl, ?_⟩
    rwa [eraseDups_toList]
  have nothing {α : Type} {e : Edit α} (hroute : c.route g = .ok [])
      (h : ((fun _ => []) <$> e) g = .ok ids g') :
      ∃ nodes, c.route g = .ok nodes ∧ g'.Wraps nodes.eraseDups ids := by
    obtain ⟨_, -, rfl⟩ := run_map_eq_ok_iff.mp h
    exact ⟨[], hroute, .nil g'⟩
  cases c with
  | facadeFor node => exact one rfl h (facadeFor_wraps hg)
  | members library =>
    obtain ⟨l, _, hask, hwrap⟩ := run_bind_eq_ok_iff.mp h
    obtain ⟨hl, rfl⟩ := ask_eq_ok_iff.mp hask
    exact ⟨l.members, by rw [route, hl]; rfl, wrapAll_wraps hg hwrap⟩
  | owningMember id =>
    obtain ⟨facade, hrun, rfl⟩ := run_map_eq_ok_iff.mp h
    obtain ⟨top, _, hask, hfor⟩ := run_bind_eq_ok_iff.mp hrun
    obtain ⟨htop, rfl⟩ := ask_eq_ok_iff.mp hask
    exact ⟨[top], by rw [route, htop]; rfl, facadeFor_wraps hg hfor⟩
  | children id =>
    obtain ⟨node, _, hask, hrest⟩ := run_bind_eq_ok_iff.mp h
    obtain ⟨hnode, rfl⟩ := ask_eq_ok_iff.mp hask
    obtain ⟨n, _, hask, hrest⟩ := run_bind_eq_ok_iff.mp hrest
    obtain ⟨hn, rfl⟩ := ask_eq_ok_iff.mp hask
    obtain ⟨_, _, hget, hwrap⟩ := run_bind_eq_ok_iff.mp hrest
    obtain ⟨rfl, rfl⟩ := EStateM.Result.ok.inj hget
    exact ⟨n.children ++ g.model.contributions node,
      by rw [route, hnode, Outcome.ok_bind, hn]; rfl, wrapAll_wraps hg hwrap⟩
  | inheritedChildren id =>
    obtain ⟨nodes, _, hask, hwrap⟩ := run_bind_eq_ok_iff.mp h
    obtain ⟨hnodes, rfl⟩ := ask_eq_ok_iff.mp hask
    exact ⟨nodes, hnodes, wrapAll_wraps hg hwrap⟩
  | assignedType user => exact slot rfl h
  | baseType member => exact slot rfl h
  | whereUsed provider =>
    obtain ⟨node, _, hask, hrest⟩ := run_bind_eq_ok_iff.mp h
    obtain ⟨hnode, rfl⟩ := ask_eq_ok_iff.mp hask
    obtain ⟨_, _, hget, hwrap⟩ := run_bind_eq_ok_iff.mp hrest
    obtain ⟨rfl, rfl⟩ := EStateM.Result.ok.inj hget
    exact ⟨g.usage.whereUsed node, by rw [route, hnode]; rfl, wrapAll_wraps hg hwrap⟩
  | addProperty => exact one rfl h (addProperty_wraps hg)
  | addAlias => exact one rfl h (addAlias_wraps hg)
  | addEnumValue => exact one rfl h (addEnumValue_wraps hg)
  | _ => exact nothing rfl h

end Call

/-! ### Sequences of calls -/

/-- Facades are identities. Whatever is asked of a registry, it stays consistent, with one facade
for a node, and continues what it was; a refused call leaves it as it was, and the facade that a
call names is that of its node from then on. Over every model that was built or loaded there is a
graph whose registry does the same, with facades of the kinds of their nodes; and what a call
answers with are, in the registry of every later graph, the facades of the nodes that the call led
to. -/
theorem facades_permanent :
    (∀ calls more : List Facade.Registry.Call,
      let r := Facade.Registry.empty.after calls
      r.Consistent ∧
      (∀ i j e e', r.entry? i = some e → r.entry? j = some e' → e.node = e'.node → i = j) ∧
      r.Continues (r.after more) ∧
      ∀ c : Facade.Registry.Call,
        (∀ existing?, (c.run r).1 = .error existing? → (c.run r).2 = r) ∧
        ∀ id, c.Names r id → ((c.run r).2.after more).get? c.node = some id) ∧
    ∀ m, Source m → ∀ v, ∃ g₀, ofModel m v = .ok g₀ ∧ ∀ calls more : List Call,
      let g := g₀.after calls
      g.facades.Consistent ∧
      (∀ i j e e', g.facades.entry? i = some e → g.facades.entry? j = some e' →
        e.node = e'.node → i = j) ∧
      (∀ id e, g.facades.entry? id = some e →
        ∃ n, g.model.node? e.node = some n ∧ Facade.Kind.ofNode? n.kind = some e.kind) ∧
      g.facades.Continues (g.after more).facades ∧
      ∀ (c : Call) ids g', c.answer g = .ok ids g' → g' = c.apply g ∧
        ∃ nodes, c.route g = .ok nodes ∧ (g'.after more).Wraps nodes.eraseDups ids := by
  refine ⟨fun calls more => ?_, fun m hm v => ?_⟩
  · intro r
    have hr : r.Consistent := .after .empty calls
    refine ⟨hr, fun i j e e' he he' hn => hr.distinct he he' hn, .after r more, fun c =>
      ⟨fun existing? h => c.run_of_error h, fun id h => ?_⟩⟩
    exact (Facade.Registry.Continues.after _ more).get (c.get?_of_names h)
  · obtain ⟨x, hgraph, hg₀⟩ := exists_ofModel hm.forest v
    refine ⟨_, hgraph, fun calls more => ?_⟩
    intro g
    have hg : Managed g := (evolves_after hg₀ calls).managed hg₀
    refine ⟨hg.facades.toConsistent, fun i j e e' he he' hn => hg.facades.distinct he he' hn,
      fun id e he => ?_, (evolves_after hg more).facades_continue, fun c ids g' h => ?_⟩
    · exact Model.facadeKind?_eq_some_iff.mp (hg.facades.known he)
    · obtain rfl := Call.apply_of_answer h
      have hg' := (c.evolves hg).managed hg
      obtain ⟨nodes, hroute, hw⟩ := Call.wraps_of_answer hg h
      exact ⟨rfl, nodes, hroute, (evolves_after hg' more).wraps hg' hw⟩

end SchemaEditor.Graph

namespace SchemaEditor.Snapshot

/-- The children of the order are its own facets and the one that is contributed. Their facades are
these for ever, also when some of them are deleted. -/
theorem facades_permanent_contributedNotes :
    ∃ loaded g, contributedNotes.load = .ok loaded ∧
      Graph.ofModel loaded.model (.chain none) = .ok g ∧
      ∀ more, ((g.after [.facadeFor ⟨0⟩, .children ⟨0⟩]).after more).Wraps
        [⟨1⟩, ⟨2⟩, ⟨3⟩, ⟨4⟩] [⟨1⟩, ⟨2⟩, ⟨3⟩, ⟨4⟩] := by
  let asked (g : Graph) := g.after [.facadeFor ⟨0⟩]
  obtain ⟨loaded, g, hload, hgraph, hp⟩ := exists_graph (s := contributedNotes) (v := .chain none)
    (p := fun g => decide ((Graph.Call.children ⟨0⟩).route (asked g) =
        .ok [⟨1⟩, ⟨2⟩, ⟨3⟩, ⟨4⟩]) &&
      match (Graph.Call.children ⟨0⟩).answer (asked g) with
      | .ok ids _ => decide (ids = [⟨1⟩, ⟨2⟩, ⟨3⟩, ⟨4⟩])
      | .error _ _ => false) (by decide +kernel)
  obtain ⟨hroute, hanswer⟩ := (Bool.and_eq_true ..).mp hp
  obtain ⟨g₀, hgraph₀, hcalls⟩ :=
    Graph.facades_permanent.2 loaded.model (.loaded hload) (.chain none)
  obtain rfl := Except.ok.inj (hgraph₀.symm.trans hgraph)
  refine ⟨loaded, g₀, hload, hgraph, fun more => ?_⟩
  cases h : (Graph.Call.children ⟨0⟩).answer (asked g₀) with
  | error => simp [h] at hanswer
  | ok ids g' =>
    rw [h] at hanswer
    obtain ⟨-, -, -, -, hlater⟩ := hcalls [.facadeFor ⟨0⟩] more
    obtain ⟨rfl, nodes, hnodes, hw⟩ := hlater _ ids g' h
    obtain rfl := Except.ok.inj (hnodes.symm.trans (of_decide_eq_true hroute))
    rwa [of_decide_eq_true hanswer] at hw

end SchemaEditor.Snapshot
