import SchemaEditor.Proofs.Graph.Exposure
import SchemaEditor.Proofs.Session.Writing

/-!
# Additions that are taken back

An addition puts one node at the end of the arena, and last on the list of its owner. When the new
node is deleted next, it is taken off this list and marked as detached; no reference is cleared,
since none leads to a node that was not there when it was set. So all that was there before the
addition is as it was, whatever the action, its subject and its parameter (`Restored`).
-/

namespace SchemaEditor

namespace Model

variable {m m' : Model} {x : NodeId} {n : Node}

/-- A model as it was, but for one more node at the end of the arena, which is detached. -/
structure Restored (m m' : Model) : Prop where
  libraries : m'.libraries = m.libraries
  size : m'.nodes.size = m.nodes.size + 1
  nodes : ∀ x, x ≠ m.nextId → m'.node? x = m.node? x
  trace : m'.IsDetached m.nextId

namespace Restored

theorem node?_eq (h : Restored m m') (hn : m.node? x = some n) : m'.node? x = some n :=
  (h.nodes x (ne_nextId hn)).trans hn

/-- The attached nodes are the same, with all that they hold. -/
theorem attached_iff (h : Restored m m') (ha : n.attached = true) :
    m'.node? x = some n ↔ m.node? x = some n := by
  refine ⟨fun hn => ?_, h.node?_eq⟩
  rw [← h.nodes x ?_, hn]
  rintro rfl
  exact h.trace.not_isAttached ⟨n, hn, ha⟩

theorem extends_ (h : Restored m m') : m.Extends m' :=
  ⟨h.size ▸ Nat.le_succ _, fun hn => ⟨_, h.node?_eq hn, rfl, rfl, rfl⟩⟩

theorem reference?_eq (h : Restored m m') (r : Usage.Reference) :
    m'.reference? r = m.reference? r := by
  by_cases hr : r.user = m.nextId
  · obtain ⟨n, hn, ha⟩ := h.trace
    rw [reference?, reference?, hr, node?_nextId, hn, Option.bind_some, ha]
    rfl
  · rw [reference?, h.nodes _ hr, reference?]

/-- Nodes that were there have the kinds of facades that they had. -/
theorem facedAmong_eq (h : Restored m m') {nodes : List NodeId}
    (hnodes : ∀ x ∈ nodes, ∃ n, m.node? x = some n) : m'.facedAmong nodes = m.facedAmong nodes := by
  refine List.filter_congr fun x hx => ?_
  obtain ⟨n, hn⟩ := hnodes x hx
  rw [facadeKind?_of_node? hn, facadeKind?_of_node? (h.node?_eq hn)]

/-- A detached node has no line. -/
theorem lines_eq (h : Restored m m') : m'.lines = m.lines := by
  obtain ⟨n, hn, ha⟩ := h.trace
  have hids : m'.nodeIds = m.nodeIds ++ [m.nextId] := by
    rw [nodeIds, h.size, List.range_succ, List.map_append]
    rfl
  rw [lines, hids, List.filterMap_append, lines]
  refine (congrArg₂ (· ++ ·) (List.filterMap_congr fun id hid => ?_) ?_).trans (List.append_nil _)
  · obtain ⟨k, hk⟩ := exists_node? (mem_nodeIds.mp hid)
    rw [h.node?_eq hk, hk]
  · simp [hn, ha]

theorem fingerprint_eq (h : Restored m m') : m'.fingerprint = m.fingerprint := by
  rw [fingerprint, h.lines_eq, fingerprint]

end Restored

end Model

/-- A node that has no reference among the nodes below, and is none of them, has nothing cleared. -/
theorem Node.released_eq_self {below : List NodeId} {x : NodeId} {n : Node} (hx : x ∉ below)
    (hn : n.attached = true → ∀ (slot : Usage.Slot) p, slot.reference n = some p → p ∉ below) :
    n.released below x = n := by
  have kept {o : Option NodeId} (ho : ∀ p, o = some p → p ∉ below) :
      o.filter (fun p => x ∉ below ∧ p ∉ below) = o := by
    refine Option.ext fun p => ?_
    rw [Option.filter_eq_some_iff, decide_eq_true_eq]
    exact and_iff_left_of_imp fun hp => ⟨hx, ho p hp⟩
  unfold released
  split
  · next ha =>
    have htype := kept (hn ha .type)
    have hbase := kept (hn ha .base)
    simp only [Usage.Slot.reference] at htype hbase
    rw [htype, hbase]
  · rfl

/-- A node that was given a new child, or none, is as it was once this child is cut off. -/
theorem Node.cut_released_of_listed {new owner x : NodeId} {n : Node} (hx : x ≠ new)
    (hnew : new ∉ n.children)
    (hn : n.attached = true → ∀ (slot : Usage.Slot) p, slot.reference n = some p → p ≠ new) :
    ((if x = owner then { n with children := n.children ++ [new] } else n).released [new] x).cut
      [new] (some owner) new x = n := by
  have hout : x ∉ [new] := by simpa using hx
  have hreleased (cs : List NodeId) :
      Node.released [new] x { n with children := cs } = { n with children := cs } := by
    refine released_eq_self hout fun ha slot p hp => ?_
    have href : slot.reference n = some p := by cases slot <;> exact hp
    simpa using hn ha slot p href
  have hattached : (n.attached && decide (x ∉ [new])) = n.attached := by simp [hx]
  by_cases howner : x = owner
  · have hfilter : (n.children ++ [new]).filter (· ≠ new) = n.children := by
      have hkept : n.children.filter (· ≠ new) = n.children :=
        List.filter_eq_self.mpr fun c hc => decide_eq_true fun he => hnew (he ▸ hc)
      rw [List.filter_append, hkept]
      simp
    rw [if_pos howner, hreleased, cut, if_pos (congrArg some howner.symm), hfilter, hattached]
  · have hne : some owner ≠ some x := fun he => howner (Option.some.inj he).symm
    rw [if_neg howner, hreleased n.children, cut, if_neg hne, hattached]

/-- The action that takes an addition back. -/
def Action.undo? : Action → Option Action
  | .addProperty => some .deleteProperty
  | .addAlias => some .deleteAlias
  | .addEnumValue => some .deleteEnumValue
  | _ => none

namespace Graph

open Model (Forest Tidy)
open Outcome (bind_ok)

variable {g g₁ g' : Graph} {f : FacadeId} {x container : NodeId} {kind : NodeKind}
variable {mandatory : Bool} {m' : Model}

/-- The facades that answer where a facade is used stand for the members that use its node. -/
theorem exists_whereUsed (hg : Managed g) (h : g.Stands f x) :
    ∃ ids g', whereUsed f g = .ok ids g' ∧ Evolves IsRegister g g' ∧
      List.Forall₂ g'.Stands ids (g.model.facedAmong (g.usage.whereUsed x)) := by
  have hnodup : (g.usage.whereUsed x).Nodup :=
    (Usage.Index.whereUsed_increasing g.usage x).imp fun hlt heq =>
      Nat.ne_of_lt hlt (congrArg NodeId.index heq)
  obtain ⟨ids, g', hrun, hev, hstands⟩ :=
    exists_wrapAll hg fun _ htop => hg.exists_node?_of_mem_whereUsed htop
  rw [eraseDups_of_nodup hnodup] at hstands
  obtain ⟨_, _, -, -, he⟩ := h.entry hg
  exact ⟨ids, g', by rw [whereUsed, bind_ok (ask_of_ok (nodeOf_of_entry he)), ← hrun]; rfl, hev,
    hstands⟩

/-- A graph as it was, but for one detached node and for facades that were handed out. -/
structure Restored (g g' : Graph) : Prop where
  model : g.model.Restored g'.model
  attached : ∀ x n, n.attached = true → (g'.model.node? x = some n ↔ g.model.node? x = some n)
  fingerprint : g'.model.fingerprint = g.model.fingerprint
  usage : g'.usage.Alike g.usage
  /-- Facades are asked for where they are used, and the same nodes are answered. -/
  answers : ∀ f x, g.Stands f x → ∃ ids k ids' k' members,
    whereUsed f g = .ok ids k ∧ List.Forall₂ k.Stands ids members ∧
      whereUsed f g' = .ok ids' k' ∧ List.Forall₂ k'.Stands ids' members
  facades : g.facades.Continues g'.facades
  versioning : g'.versioning = g.versioning

/-- The parts of a graph are restored with its model, if all else follows the model. -/
theorem restored_of_model (hg : Managed g) (hg' : Managed g') (hmodel : g.model.Restored g'.model)
    (hfacades : g.facades.Continues g'.facades) (hversioning : g'.versioning = g.versioning) :
    Restored g g' := by
  have husage : g.usage.Agrees g'.model :=
    hg.usage.of_extends hg.forest hg'.forest hmodel.extends_ hmodel.reference?_eq
  have halike := hg'.usage.alike husage
  refine ⟨hmodel, fun _ _ ha => hmodel.attached_iff ha, hmodel.fingerprint_eq, halike,
    fun f x hx => ?_, hfacades, hversioning⟩
  have hx' : g'.Stands f x := hx.imp fun _ he => hfacades.entry he
  obtain ⟨ids, k, hrun, -, hstands⟩ := exists_whereUsed hg hx
  obtain ⟨ids', k', hrun', -, hstands'⟩ := exists_whereUsed hg' hx'
  rw [halike.whereUsed,
    hmodel.facedAmong_eq fun _ htop => hg.exists_node?_of_mem_whereUsed htop] at hstands'
  exact ⟨ids, k, ids', k', _, hrun, hstands, hrun', hstands'⟩

/-- Nothing hangs below a new node. -/
theorem GrownBelow.preorder_eq (h : g.GrownBelow container kind mandatory g₁.model)
    (hf : Forest g₁.model) : g₁.model.preorder g.model.nextId = [g.model.nextId] := by
  obtain ⟨p, taken, name, -, -, -, -, hadded⟩ := h
  rw [hf.preorder_eq (hadded.added rfl)]
  rfl

/-- What was added below a node and cut off again has left a detached node, nothing else. -/
theorem restored_of_cutOff (hf : Forest g.model) (ht : Tidy g.model) (hf₁ : Forest g₁.model)
    (hgrown : g.GrownBelow container kind mandatory g₁.model)
    (hcut : g₁.CutOff g.model.nextId m') : g.model.Restored m' := by
  obtain ⟨n, below, hn, hbelow, hdetached⟩ := hcut
  rw [hf₁.subtree_eq hn, hgrown.preorder_eq hf₁] at hbelow
  obtain rfl := Except.ok.inj hbelow
  obtain ⟨p, taken, name, hp, -, -, -, hadded⟩ := hgrown
  obtain rfl := Option.some.inj ((hadded.added rfl).symm.trans hn)
  obtain ⟨n', hn', rfl⟩ := hdetached.kept hn
  have hsize : m'.nodes.size = g.model.nodes.size + 1 := hdetached.size.trans hadded.size
  constructor
  case libraries => exact hdetached.libraries.trans hadded.libraries
  case size => exact hsize
  case trace => exact ⟨_, hn', by simp [Node.cut]⟩
  case nodes =>
    intro x hx
    cases hk : g.model.node? x with
    | none =>
      have hle := Model.node?_eq_none_iff.mp hk
      have hne : x.index ≠ g.model.nodes.size := fun he => hx (congrArg NodeId.mk he)
      exact Model.node?_eq_none_iff.mpr (by omega)
    | some k =>
      obtain ⟨k₁, hk₁, rfl⟩ := hadded.kept hk
      obtain ⟨k', hk', rfl⟩ := hdetached.kept hk₁
      rw [hk']
      refine congrArg some (Node.cut_released_of_listed hx (fun hc => ?_) fun ha slot q hq => ?_)
      · obtain ⟨e, he, -⟩ := hf.owned hk hc
        exact Model.ne_nextId he rfl
      · obtain ⟨e, he, -⟩ := ht ⟨x, slot⟩ q (Model.reference?_eq_some_iff.mpr ⟨k, hk, ha, hq⟩)
        exact Model.ne_nextId he

end Graph

namespace Request

variable {r : Request} {g : Graph} {node : NodeId} {m' : Model}

/-- An action that can be taken back adds a node. -/
theorem Writes.grown (h : r.Writes g node m') {undo : Action} (hr : r.action.undo? = some undo) :
    ∃ container kind mandatory, g.GrownBelow container kind mandatory m' := by
  obtain ⟨action, subject, param⟩ := r
  cases action with
  | addProperty =>
    obtain ⟨kind, container, -, -, hgrown⟩ := h
    exact ⟨container, _, _, hgrown⟩
  | addAlias | addEnumValue => exact ⟨node, _, _, h⟩
  | _ => cases hr

/-- The action that takes an addition back cuts its subject off. -/
theorem Writes.cutOff (h : r.Writes g node m') {added : Action}
    (hr : added.undo? = some r.action) : g.CutOff node m' := by
  obtain ⟨action, subject, param⟩ := r
  cases added <;> cases hr <;> exact h

theorem removed_of_undo {added : Action} (hr : added.undo? = some r.action) (g : Graph)
    (node : NodeId) : r.removed g node = g.model.preorder node := by
  obtain ⟨action, subject, param⟩ := r
  cases added <;> cases hr <;> rfl

end Request

namespace Session

open SchemaEditor.Graph (Evolves Restored)

variable {s s₁ s₂ : Session} {action undo : Action} {subject facade : FacadeId}
variable {param param' : Option Param} {o o' : Outcome}

/-- An addition creates the facade of the next node of the arena. -/
theorem created_of_addition (h : Sound s) (hundo : action.undo? = some undo)
    (hrun : run action subject param s = .ok o s₁) :
    ∃ facade container kind mandatory, o.created = some facade ∧
      s₁.graph.nodeOf facade = .ok s.graph.model.nextId ∧
      s.graph.GrownBelow container kind mandatory s₁.graph.model := by
  obtain ⟨node, -, hwrites, -⟩ := writes_of_run h.managed hrun
  obtain ⟨container, kind, mandatory, hgrown⟩ := hwrites.grown hundo
  obtain ⟨-, hsize⟩ | ⟨facade, -, hcreated, -, hnode, -⟩ := (publishes_of_run h.managed hrun).created
  · obtain ⟨p, taken, name, -, -, -, -, hadded⟩ := hgrown
    have hgrew := hadded.size
    simp [hsize] at hgrew
  · exact ⟨facade, container, kind, mandatory, hcreated, hnode, hgrown⟩

/-- An addition that is taken back leaves a detached node and facades, and nothing else. -/
theorem restored_of_runs (h : Sound s) (hundo : action.undo? = some undo)
    (hadd : run action subject param s = .ok o s₁) (hcreated : o.created = some facade)
    (hdelete : run undo facade param' s₁ = .ok o' s₂) :
    Restored s.graph s₂.graph ∧ o'.detached = [s.graph.model.nextId] := by
  have hev₁ := evolves_of_run h.managed hadd
  have h₁ : Sound s₁ := h.of_evolves hev₁
  have hev₂ := evolves_of_run h₁.managed hdelete
  have h₂ : Sound s₂ := h₁.of_evolves hev₂
  obtain ⟨facade', container, kind, mandatory, hcreated', hnode, hgrown⟩ :=
    created_of_addition h hundo hadd
  obtain rfl := Option.some.inj (hcreated.symm.trans hcreated')
  obtain ⟨node, hattached, hwrites, hremoved⟩ := writes_of_run h₁.managed hdelete
  obtain rfl := Except.ok.inj ((Graph.nodeOf_of_attachedNode hattached).symm.trans hnode)
  have hmodel := Graph.restored_of_cutOff h.managed.forest h.tidy h₁.managed.forest hgrown
    (hwrites.cutOff hundo)
  refine ⟨Graph.restored_of_model h.managed h₂.managed hmodel (hev₁.trans hev₂).facades_continue
    (hev₁.trans hev₂).versioning_eq, ?_⟩
  rw [hremoved, Request.removed_of_undo hundo, hgrown.preorder_eq h₁.managed.forest]

/-- In a session over the model of a snapshot, whatever its history: whoever adds a property, an
alias or a value and then deletes what was created leaves all that was there before the addition as
it was, except that facades may have been handed out. Behind it there is one more node, detached. -/
theorem addition_taken_back {snapshot : Snapshot} {loaded : Snapshot.Loaded} {v : Versioning}
    {g : Graph} (hload : snapshot.load = .ok loaded) (hgraph : Graph.ofModel loaded.model v = .ok g)
    (history : List Call) (hundo : action.undo? = some undo)
    (hadd : run action subject param ((ofGraph g).after history) = .ok o s₁) :
    ∃ facade, o.created = some facade ∧ ∀ param' o' s₂,
      run undo facade param' s₁ = .ok o' s₂ →
        Restored ((ofGraph g).after history).graph s₂.graph ∧
          o'.detached = [((ofGraph g).after history).graph.model.nextId] := by
  obtain ⟨_, hgraph', -, -, hsound⟩ := exists_sound_of_load hload v
  obtain rfl := Except.ok.inj (hgraph'.symm.trans hgraph)
  have hafter := hsound.after history
  obtain ⟨facade, -, -, -, hcreated, -⟩ := created_of_addition hafter hundo hadd
  exact ⟨facade, hcreated, fun param' o' s₂ hdelete =>
    restored_of_runs hafter hundo hadd hcreated hdelete⟩

end Session

namespace Snapshot

open Session (Call)

/-- The facade of the object of the draft is asked for. -/
def archiveOpened : List Call := [.graph (.facadeFor ⟨0⟩)]

/-- An element is added to the order, next to the property that the other library refers to, and
deleted again. -/
theorem addition_taken_back_archive :
    ∃ loaded g o s₁ o' s₂, archive.load = .ok loaded ∧
      Graph.ofModel loaded.model (.chain none) = .ok g ∧
      let s := (Session.ofGraph g).after archiveOpened
      Session.run .addProperty ⟨0⟩ (some (.property .element)) s = .ok o s₁ ∧
        Session.run .deleteProperty ⟨1⟩ none s₁ = .ok o' s₂ ∧
        Graph.Restored s.graph s₂.graph ∧ o'.detached = [s.graph.model.nextId] := by
  obtain ⟨loaded, g, o, s₁, hload, hgraph, hadd, hp⟩ := exists_run archive (.chain none)
    archiveOpened .addProperty ⟨0⟩ (some (.property .element))
    (p := fun _ o s₁ => decide (o.created = some ⟨1⟩) && s₁.isEnabled .deleteProperty ⟨1⟩ none)
    (by decide +kernel)
  obtain ⟨hfirst, henabled⟩ := (Bool.and_eq_true _ _).mp hp
  obtain ⟨_, hgraph', -, -, hsound⟩ := Session.exists_sound_of_load hload (.chain none)
  obtain rfl := Except.ok.inj (hgraph'.symm.trans hgraph)
  have hs := hsound.after archiveOpened
  have hs₁ := hs.of_evolves (Session.evolves_of_run hs.managed hadd)
  obtain ⟨o', s₂, hdelete⟩ := (Session.isEnabled_iff_run hs₁.managed).mp henabled
  obtain ⟨facade, hcreated, hrestored⟩ :=
    Session.addition_taken_back hload hgraph archiveOpened rfl hadd
  obtain rfl := Option.some.inj (hcreated.symm.trans (of_decide_eq_true hfirst))
  exact ⟨loaded, _, o, s₁, o', s₂, hload, hgraph, hadd, hdelete, hrestored none o' s₂ hdelete⟩

end Snapshot

end SchemaEditor
