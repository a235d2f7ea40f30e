import SchemaEditor.Proofs.Action.Scope
import SchemaEditor.Proofs.Graph.Footprint

/-!
# What actions say about themselves

The effect of a performed action is put together apart from the edit it speaks of. `Tells` says
that the two agree: the event names what the action created or assigned or how it renamed its
subject, a facade was created exactly if the arena grew by the node of this facade, and the nodes
given as detached are those that are not attached any more.
-/

namespace SchemaEditor

namespace Action

/-- The kind of the event of an action. -/
def eventKind : Action → EventKind
  | .setName => .nameChange
  | .setDescription | .setExample | .setDeprecation => .documentationChange
  | .setMandatory => .mandatoryChange
  | .assignType | .clearType | .setBaseType | .clearBaseType => .typeChange
  | .addProperty | .addAlias | .addEnumValue => .childAdded
  | .deleteProperty | .deleteAlias | .deleteEnumValue => .childDeleted

theorem eventKind_ne_navigation (action : Action) : action.eventKind ≠ .navigation := by
  cases action <;> decide

theorem eventKind_ne_validationChange (action : Action) :
    action.eventKind ≠ .validationChange := by
  cases action <;> decide

/-- The reference that an action points at its parameter, if any. -/
def assigns? : Action → Option Usage.Slot
  | .assignType => some .type
  | .setBaseType => some .base
  | _ => none

end Action

namespace Request

open SchemaEditor.Graph (Adds Evolves Managed)
open Outcome (bind_eq_ok_iff run_bind_eq_ok_iff)

variable {r : Request} {g g' : Graph} {node : NodeId} {effect : Effect} {α : Type} {a : α}

/-- The event of a request that was performed. Its target is what was assigned, or else what was
created, and a new name comes with the names before and after. -/
def announcement (r : Request) (created : Option FacadeId) (before after : String) : Event :=
  .change r.action.eventKind r.subject
    (if r.action.assigns?.isSome then r.provider.toOption else created)
    (if r.action = .setName then .renamed before after else .nothing)

/-- What an effect says is what has become of the graph. -/
structure Tells (r : Request) (g : Graph) (node : NodeId) (effect : Effect) (g' : Graph) :
    Prop where
  announced : ∃ before after, g.name r.subject = .ok before ∧ g'.name r.subject = .ok after ∧
    Event.change effect.event r.subject effect.target effect.detail =
      r.announcement effect.created before after
  created : effect.created = none ∧ g'.model.nodes.size = g.model.nodes.size ∨
    ∃ facade, effect.created = some facade ∧ Adds g g' node facade
  detached : effect.detached.Nodup ∧
    ∀ x, x ∈ effect.detached ↔ g.model.IsAttached x ∧ ¬ g'.model.IsAttached x
  assigned : ∀ slot, r.action.assigns? = some slot → ∃ provider p, r.provider = .ok provider ∧
    g.nodeOf provider = .ok p ∧ g'.model.reference? ⟨node, slot⟩ = some p

/-! ### Reading a performance -/

theorem take_eq_ok_iff {argument : Except Action.Error α} :
    take argument g = .ok a g' ↔ argument = .ok a ∧ g = g' := by
  unfold take
  cases argument <;> simp

theorem edit_eq_ok_iff {e : Graph.Edit α} : r.edit e g = .ok a g' ↔ e g = .ok a g' := by
  unfold edit
  cases e g <;> simp

/-- A performance that makes one edit with the parameter of its request. -/
theorem edit_of_perform {β : Type} {argument : Except Action.Error β} {e : β → Graph.Edit α}
    {f : β → α → Effect}
    (h : (take argument >>= fun b => r.edit (e b) >>= fun a => pure (f b a)) g = .ok effect g') :
    ∃ b a, argument = .ok b ∧ e b g = .ok a g' ∧ effect = f b a := by
  obtain ⟨b, _, htake, h⟩ := run_bind_eq_ok_iff.mp h
  obtain ⟨hargument, rfl⟩ := take_eq_ok_iff.mp htake
  obtain ⟨a, _, hedit, h⟩ := run_bind_eq_ok_iff.mp h
  obtain ⟨rfl, rfl⟩ := EStateM.Result.ok.inj h
  exact ⟨b, a, hargument, edit_eq_ok_iff.mp hedit, rfl⟩

/-- What an effect says, without the graph: the kind of its event, its target, and no detail but
that of a new name. -/
theorem effect_of_perform (h : r.perform g = .ok effect g') :
    effect.event = r.action.eventKind ∧
      effect.target = (if r.action.assigns?.isSome then r.provider.toOption
        else effect.created) ∧
      (effect.created.isSome → r.action.eventKind = .childAdded) ∧
      (r.action ≠ .setName → effect.detail = .nothing) := by
  obtain ⟨action, subject, param⟩ := r
  cases action with
  | setName =>
    obtain ⟨before, _, -, h⟩ := run_bind_eq_ok_iff.mp h
    obtain ⟨_, after, -, -, rfl⟩ := edit_of_perform h
    exact ⟨rfl, rfl, nofun, fun hne => absurd rfl hne⟩
  | setDescription | setExample | setDeprecation | setMandatory =>
    obtain ⟨_, _, -, -, rfl⟩ := edit_of_perform h
    exact ⟨rfl, rfl, nofun, fun _ => rfl⟩
  | clearType | clearBaseType =>
    obtain ⟨_, _, -, h⟩ := run_bind_eq_ok_iff.mp h
    obtain ⟨rfl, -⟩ := EStateM.Result.ok.inj h
    exact ⟨rfl, rfl, nofun, fun _ => rfl⟩
  | assignType | setBaseType =>
    obtain ⟨provider, _, hprovider, -, rfl⟩ := edit_of_perform h
    exact ⟨rfl, (congrArg Except.toOption hprovider).symm, nofun, fun _ => rfl⟩
  | addProperty | addAlias | addEnumValue =>
    obtain ⟨_, facade, -, -, rfl⟩ := edit_of_perform h
    exact ⟨rfl, rfl, fun _ => rfl, fun _ => rfl⟩
  | deleteProperty | deleteAlias | deleteEnumValue =>
    obtain ⟨nodes, _, -, h⟩ := run_bind_eq_ok_iff.mp h
    obtain ⟨rfl, -⟩ := EStateM.Result.ok.inj h
    exact ⟨rfl, rfl, nofun, fun _ => rfl⟩

/-! ### Names -/

/-- Every facade has a name, and has one for ever. -/
theorem exists_name (hg : Managed g) (hnode : g.attachedNode r.subject = .ok node)
    {P : Graph → Graph.Change → Prop} (hev : Evolves P g g') :
    ∃ before after, g.name r.subject = .ok before ∧ g'.name r.subject = .ok after := by
  obtain ⟨e, n, he, rfl, hn, -⟩ := Graph.attachedNode_eq_ok_iff.mp hnode
  obtain ⟨n', hn', -⟩ := hev.extends_.same hn
  obtain ⟨before, hbefore⟩ := hg.forest.exists_nodeName hn
  obtain ⟨after, hafter⟩ := (hev.managed hg).forest.exists_nodeName hn'
  refine ⟨before, after, ?_, ?_⟩
  · rw [Graph.name, Graph.nodeOf_of_entry he, Outcome.ok_bind,
      Graph.ofModelResult_of_ok hbefore]
  · rw [Graph.name, Graph.nodeOf_of_entry (hev.entry?_eq he), Outcome.ok_bind,
      Graph.ofModelResult_of_ok hafter]

theorem announced_of_perform (hg : Managed g) (hnode : g.attachedNode r.subject = .ok node)
    {P : Graph → Graph.Change → Prop} (hev : Evolves P g g')
    (h : r.perform g = .ok effect g') :
    ∃ before after, g.name r.subject = .ok before ∧ g'.name r.subject = .ok after ∧
      Event.change effect.event r.subject effect.target effect.detail =
        r.announcement effect.created before after := by
  obtain ⟨hevent, htarget, -, hdetail⟩ := effect_of_perform h
  by_cases hr : r.action = .setName
  · obtain ⟨action, subject, param⟩ := r
    cases hr
    obtain ⟨before, _, hask, h⟩ := run_bind_eq_ok_iff.mp h
    obtain ⟨hbefore, rfl⟩ := Graph.ask_eq_ok_iff.mp (edit_eq_ok_iff.mp hask)
    obtain ⟨_, after, -, hafter, rfl⟩ := edit_of_perform h
    exact ⟨before, after, hbefore, Graph.name_of_setName hg hafter, rfl⟩
  · obtain ⟨before, after, hbefore, hafter⟩ := exists_name hg hnode hev
    refine ⟨before, after, hbefore, hafter, ?_⟩
    rw [announcement, hevent, htarget, hdetail hr, if_neg hr]

/-! ### New nodes -/

/-- Only additions make the arena grow. -/
theorem Makes.of_grow {k : Graph} {owner : NodeId} {kind : NodeKind} {name : String}
    (h : r.Makes g node k (.grow owner kind name)) : r.action.eventKind = .childAdded := by
  obtain ⟨action, subject, param⟩ := r
  cases action <;> simp_all [Makes, Graph.Follows, Graph.ClearsBelow, Action.eventKind]

/-- A property is only added where a container takes it. -/
theorem addProperty_adds {id facade : FacadeId} {kind : PropertyKind} {name : Option String}
    (hg : Managed g) (hnode : g.nodeOf id = .ok node)
    (h : Graph.addProperty id kind name g = .ok facade g') : Adds g g' node facade := by
  obtain ⟨container, hc⟩ := Graph.container_of_addProperty h
  obtain ⟨p, hp, -⟩ := Graph.attached_of_acceptingContainer? hc
  obtain ⟨taken, htaken⟩ := hg.forest.exists_childNames hp
  obtain ⟨_, g₁, g₂, _, hrun, hstep, hmand, hev, he⟩ := Graph.addProperty_steps hg hc name htaken
  obtain ⟨rfl, rfl⟩ := EStateM.Result.ok.inj (h.symm.trans hrun)
  -- after the growth the arena has its new size: neither step that is left adds a node
  let P : Graph → Graph.Change → Prop := fun _ c =>
    c = .mandate g.model.nextId true ∨ c = .register g.model.nextId
  have hreg : Evolves P g₂ g' := hev.mono fun _ _ => Or.inr
  have hevP : Evolves P g₁ g' := by
    obtain ⟨-, rfl⟩ | ⟨-, hmand⟩ := hmand
    · exact hreg
    · exact .trans (.single (.inl rfl) hmand) hreg
  exact Graph.adds_of_grow (Graph.under_of_acceptingContainer? hg.forest hnode hc) hstep hevP
    (fun hgrow => by obtain hc | hc := hgrow <;> cases hc) he

theorem adds_of_perform (hg : Managed g) (hnode : g.attachedNode r.subject = .ok node)
    (hreq : r.requirement g = .ok ⟨⟩) (hr : r.action.eventKind = .childAdded)
    (h : r.perform g = .ok effect g') :
    ∃ facade, effect.created = some facade ∧ Adds g g' node facade := by
  obtain ⟨action, subject, param⟩ := r
  cases action with
  | addProperty =>
    obtain ⟨kind, facade, -, hadd, rfl⟩ := edit_of_perform h
    exact ⟨facade, rfl, addProperty_adds hg (Graph.nodeOf_of_attachedNode hnode) hadd⟩
  | addAlias =>
    obtain ⟨kind, hkind, hreq⟩ := bind_eq_ok_iff.mp hreq
    obtain ⟨⟨⟩, hsupports, -⟩ := bind_eq_ok_iff.mp hreq
    obtain ⟨name, facade, -, hadd, rfl⟩ := edit_of_perform h
    rw [Graph.addAlias_eq_addNamedChild (query_eq_ok_iff.mp hkind)
      (demand_eq_ok_iff.mp hsupports)] at hadd
    exact ⟨facade, rfl, Graph.addNamedChild_adds hg hnode rfl hadd⟩
  | addEnumValue =>
    obtain ⟨kind, hkind, hreq⟩ := bind_eq_ok_iff.mp hreq
    obtain ⟨⟨⟩, henumeration, -⟩ := bind_eq_ok_iff.mp hreq
    obtain ⟨literal, facade, -, hadd, rfl⟩ := edit_of_perform h
    rw [Graph.addEnumValue_eq_addNamedChild (query_eq_ok_iff.mp hkind)
      (demand_eq_ok_iff.mp henumeration)] at hadd
    exact ⟨facade, rfl, Graph.addNamedChild_adds hg hnode rfl hadd⟩
  | _ => cases hr

/-! ### Nodes that are gone -/

theorem detaches_of_perform (hg : Managed g) (hnode : g.attachedNode r.subject = .ok node)
    (hev : Evolves (r.Makes g node) g g') (hremoved : effect.detached = r.removed g node)
    (h : r.perform g = .ok effect g') :
    effect.detached.Nodup ∧
      ∀ x, x ∈ effect.detached ↔ g.model.IsAttached x ∧ ¬ g'.model.IsAttached x := by
  obtain ⟨action, subject, param⟩ := r
  by_cases hr : action = .deleteProperty ∨ action = .deleteAlias ∨ action = .deleteEnumValue
  · have hdelete : ∃ nodes, Graph.delete subject g = .ok nodes g' ∧ effect = .deletion nodes := by
      obtain rfl | rfl | rfl := hr <;>
      · obtain ⟨nodes, _, hdelete, h⟩ := run_bind_eq_ok_iff.mp h
        obtain ⟨rfl, rfl⟩ := EStateM.Result.ok.inj h
        exact ⟨nodes, edit_eq_ok_iff.mp hdelete, rfl⟩
    obtain ⟨nodes, hdelete, rfl⟩ := hdelete
    exact Graph.delete_detaches hg hnode hdelete
  · have hnone : effect.detached = [] := by
      rw [hremoved]
      cases action <;> simp_all [removed]
    have hstays (x : NodeId) (hx : g.model.IsAttached x) : g'.model.IsAttached x :=
      hev.isAttached (fun hdetach => hr hdetach.of_detach.2) hx
    rw [hnone]
    refine ⟨List.nodup_nil, fun x => ⟨nofun, fun ⟨hx, hgone⟩ => absurd (hstays x hx) hgone⟩⟩

/-! ### References that were set -/

theorem assigns_of_perform (hg : Managed g) (hnode : g.attachedNode r.subject = .ok node)
    (hreq : r.requirement g = .ok ⟨⟩) (h : r.perform g = .ok effect g') {slot : Usage.Slot}
    (hslot : r.action.assigns? = some slot) :
    ∃ provider p, r.provider = .ok provider ∧ g.nodeOf provider = .ok p ∧
      g'.model.reference? ⟨node, slot⟩ = some p := by
  obtain ⟨action, subject, param⟩ := r
  cases action with
  | assignType =>
    cases hslot
    obtain ⟨_, -, hreq⟩ := bind_eq_ok_iff.mp hreq
    obtain ⟨⟨⟩, -, hreq⟩ := bind_eq_ok_iff.mp hreq
    obtain ⟨provider, hprovider, hcan⟩ := bind_eq_ok_iff.mp hreq
    have hcan := query_eq_ok_iff.mp hcan
    obtain ⟨-, p, hp⟩ := Graph.attached_of_canAssign hcan
    obtain ⟨g₁, k, hrun, hstep, hev, -⟩ := Graph.assignType_steps hg hcan hnode hp
    obtain ⟨_, _, htaken, hassign, -⟩ := edit_of_perform h
    obtain rfl := Except.ok.inj (hprovider.symm.trans htaken)
    obtain ⟨-, rfl⟩ := EStateM.Result.ok.inj (hrun.symm.trans hassign)
    refine ⟨provider, p, hprovider, Graph.nodeOf_of_attachedNode hp, ?_⟩
    rw [(hev.of_isRename fun _ _ => Graph.Follows.isRename).2.2]
    exact hstep.reference?_of_point
  | setBaseType =>
    cases hslot
    obtain ⟨_, -, hreq⟩ := bind_eq_ok_iff.mp hreq
    obtain ⟨⟨⟩, -, hreq⟩ := bind_eq_ok_iff.mp hreq
    obtain ⟨base, hbase, hcan⟩ := bind_eq_ok_iff.mp hreq
    have hcan := query_eq_ok_iff.mp hcan
    obtain ⟨-, b, hb⟩ := Graph.attached_of_canExtend hcan
    obtain ⟨k, hrun, hstep⟩ := Graph.setBaseType_eq hg hcan hnode hb
    obtain ⟨_, _, htaken, hassign, -⟩ := edit_of_perform h
    obtain rfl := Except.ok.inj (hbase.symm.trans htaken)
    obtain ⟨-, rfl⟩ := EStateM.Result.ok.inj (hrun.symm.trans hassign)
    exact ⟨base, b, hbase, Graph.nodeOf_of_attachedNode hb, hstep.reference?_of_point⟩
  | _ => cases hslot

/-! ### Effects -/

/-- A request whose precondition holds is performed, and its effect tells what has become of the
graph. -/
theorem tells_of_precondition (hg : Managed g) (h : r.precondition g = .ok ⟨⟩) :
    ∃ node effect g', g.attachedNode r.subject = .ok node ∧ r.perform g = .ok effect g' ∧
      Evolves (r.Makes g node) g g' ∧ r.Tells g node effect g' := by
  obtain ⟨node, hnode, effect, g', hperform, hev, hremoved⟩ := performed_of_precondition hg h
  have hreq := (attached_of_precondition h).2
  refine ⟨node, effect, g', hnode, hperform, hev, ?_⟩
  exact {
    announced := announced_of_perform hg hnode hev hperform
    created := by
      by_cases hr : r.action.eventKind = .childAdded
      · exact .inr (adds_of_perform hg hnode hreq hr hperform)
      · have hcreated := (effect_of_perform hperform).2.2.1
        refine .inl ⟨?_, hev.size_eq fun hgrow => hr hgrow.of_grow⟩
        exact Option.not_isSome_iff_eq_none.mp fun hsome => hr (hcreated hsome)
    detached := detaches_of_perform hg hnode hev hremoved hperform
    assigned := fun _ hslot => assigns_of_perform hg hnode hreq hperform hslot }

end Request

end SchemaEditor
