import SchemaEditor.Proofs.Graph.Extension
import SchemaEditor.Proofs.Graph.Rewriting

/-!
# References to deleted nodes

A node of a graph is detached exactly if a deletion gave it (`isDetached_after_iff`). Deletions
clear the types and bases that lead to what they detach, so those of attached nodes lead to attached
nodes, and those of the nodes they detach, so that these store none (`Bare`). The target of a
contribution is written by no call: a facet that is left goes on contributing to an object that was
deleted.
-/

namespace SchemaEditor

namespace Model

/-- The model has a node with this id, and it is detached. -/
def IsDetached (m : Model) (x : NodeId) : Prop := ∃ n, m.node? x = some n ∧ n.attached = false

/-- The node into which a node contributes. -/
def target? (m : Model) (x : NodeId) : Option NodeId := (m.node? x).bind (·.contributesTo)

/-- Detached nodes store no reference. -/
def Bare (m : Model) : Prop :=
  ∀ x n (slot : Usage.Slot), m.node? x = some n → n.attached = false → slot.reference n = none

variable {m : Model} {x : NodeId}

theorem IsDetached.not_isAttached (h : m.IsDetached x) : ¬ m.IsAttached x := by
  obtain ⟨n, hn, ha⟩ := h
  rintro ⟨n', hn', ha'⟩
  obtain rfl := Option.some.inj (hn.symm.trans hn')
  cases ha.symm.trans ha'

theorem isDetached_of_not_isAttached {n : Node} (hn : m.node? x = some n)
    (h : ¬ m.IsAttached x) : m.IsDetached x :=
  ⟨n, hn, Bool.eq_false_iff.mpr fun ha => h ⟨n, hn, ha⟩⟩

/-- Nothing is detached in a model from which nothing was taken. -/
theorem Whole.bare (h : Whole m) : Bare m := by
  intro x n slot hn ha
  cases ha.symm.trans (h.attached hn)

end Model

namespace Graph

open Model (Bare)
open Outcome (Occurs not_occurs_nil occurs_cons run_bind_eq_ok_iff)

variable {P : Graph → Change → Prop} {g g' : Graph} {c : Change} {x t : NodeId} {n n' : Node}

/-! ### Steps -/

/-- A change leaves a reference of a node alone, unless it clears it or points it somewhere. -/
theorem Change.reference_rewrite (c : Change) (m : Model) (x : NodeId) (n : Node)
    (slot : Usage.Slot) : slot.reference (c.rewrite m x n) = slot.reference n ∨
      slot.reference (c.rewrite m x n) = none ∨ ∃ r p, c = .point r p ∧ x = r.user := by
  cases c with
  | register | detach => exact .inl (by cases slot <;> rfl)
  | rename | document | mandate | grow =>
    refine .inl ?_
    rw [rewrite]
    split
    · cases slot <;> rfl
    · rfl
  | point r p =>
    by_cases hx : x = r.user
    · exact .inr (.inr ⟨r, p, rfl, hx⟩)
    · exact .inl (by rw [rewrite, if_neg hx])
  | clear r =>
    rw [rewrite]
    split
    · rw [Usage.Slot.reference_put]
      split
      · exact .inr (.inl rfl)
      · exact .inl rfl
    · exact .inl rfl

namespace Step

/-- A node that a step adds has nothing but its kind, place and name. -/
theorem fresh (h : Step g c g') (hx : g.model.node? x = none) (hn' : g'.model.node? x = some n') :
    ∃ kind library owner name, n' = .fresh kind library owner name := by
  obtain ⟨n, hn⟩ | ⟨owner, kind, name, rfl, -⟩ := h.exists_before hn'
  · cases hx.symm.trans hn
  · cases h with
    | grow hp =>
      obtain ⟨-, rfl⟩ | ⟨rfl, -⟩ | ⟨-, hold⟩ := Model.appendChild_cases hp hn'
      · exact ⟨_, _, _, _, rfl⟩
      · cases hx.symm.trans hp
      · cases hx.symm.trans hold

/-- No step attaches a node again. -/
theorem isDetached (h : Step g c g') (hx : g.model.IsDetached x) : g'.model.IsDetached x := by
  obtain ⟨n, hn, ha⟩ := hx
  by_cases hc : ∃ node, c = .detach node
  · obtain ⟨node, rfl⟩ := hc
    exact ⟨_, h.node?_eq hn, by simp [Change.rewrite, Node.cut, ha]⟩
  · obtain ⟨n', hn', ha'⟩ := h.attached_eq (fun node he => hc ⟨node, he⟩) hn
    exact ⟨n', hn', ha'.trans ha⟩

theorem isDetached_iff (h : Step g c g') (hc : ∀ node, c ≠ .detach node) :
    g'.model.IsDetached x ↔ g.model.IsDetached x := by
  refine ⟨fun ⟨n', hn', ha'⟩ => ?_, h.isDetached⟩
  cases hn : g.model.node? x with
  | some n =>
    obtain ⟨k, hk, ha⟩ := h.attached_eq hc hn
    obtain rfl := Option.some.inj (hk.symm.trans hn')
    exact ⟨n, hn, ha.symm.trans ha'⟩
  | none =>
    obtain ⟨_, _, _, _, rfl⟩ := h.fresh hn hn'
    cases ha'

/-- A step after which a node is no longer attached is a detachment. -/
theorem exists_detach (h : Step g c g') (hn : g.model.node? x = some n) (ha : n.attached = true)
    (hn' : g'.model.node? x = some n') (ha' : n'.attached = false) : ∃ node, c = .detach node := by
  by_contra hc
  obtain ⟨k, hk, hka⟩ := h.attached_eq (fun node he => hc ⟨node, he⟩) hn
  obtain rfl := Option.some.inj (hk.symm.trans hn')
  cases ha'.symm.trans (hka.trans ha)

/-- No step changes the target of a contribution. -/
theorem target?_eq (h : Step g c g') (x : NodeId) : g'.model.target? x = g.model.target? x := by
  rw [Model.target?, Model.target?]
  cases hn : g.model.node? x with
  | some n =>
    rw [h.node?_eq hn]
    cases c with
    | register | detach => rfl
    | point r | clear r =>
      simp only [Change.rewrite, Option.bind_some]
      cases r.slot <;> split <;> rfl
    | _ =>
      simp only [Change.rewrite, Option.bind_some]
      split <;> rfl
  | none =>
    cases hn' : g'.model.node? x with
    | none => rfl
    | some n' =>
      obtain ⟨_, _, _, _, rfl⟩ := h.fresh hn hn'
      rfl

/-- A detached node stays without references, and a node is detached without any. -/
theorem bare (h : Step g c g') (hb : Bare g.model) : Bare g'.model := by
  intro x n' slot hn' ha'
  cases hn : g.model.node? x with
  | none =>
    obtain ⟨_, _, _, _, rfl⟩ := h.fresh hn hn'
    cases ha'
  | some n =>
    obtain rfl := Option.some.inj ((h.node?_eq hn).symm.trans hn')
    obtain hsame | hnone | ⟨r, p, rfl, rfl⟩ := c.reference_rewrite g.model x n slot
    · rw [hsame]
      cases ha : n.attached with
      | false => exact hb x n slot hn ha
      | true =>
        obtain ⟨node, rfl⟩ := h.exists_detach hn ha hn' ha'
        cases h with
        | detach _ _ hr =>
          have hx : x ∈ g.model.preorder node := by simpa [Change.rewrite, Node.cut, ha] using ha'
          refine Option.eq_none_iff_forall_ne_some.mpr fun p hp => (hr ⟨x, slot⟩ p ?_).1 hx
          exact Model.reference?_eq_some_iff.mpr ⟨n, hn, ha, hp⟩
    · exact hnone
    · -- Only an attached node is pointed somewhere.
      obtain ⟨k, hk, hka⟩ := h.attached_eq (fun _ hc => by cases hc) hn
      obtain rfl := Option.some.inj (hk.symm.trans hn')
      cases h with
      | point hm hma =>
        obtain rfl := Option.some.inj (hm.symm.trans hn)
        cases ha'.symm.trans (hka.trans hma)

end Step

namespace Evolves

theorem isDetached (h : Evolves P g g') (hx : g.model.IsDetached x) : g'.model.IsDetached x :=
  h.keeps (I := fun k => k.model.IsDetached x) (fun hk _ hs => hs.isDetached hk) hx

theorem isDetached_iff (h : Evolves P g g') (hP : ∀ {k node}, ¬ P k (.detach node)) :
    g'.model.IsDetached x ↔ g.model.IsDetached x :=
  h.keeps (I := fun k => k.model.IsDetached x ↔ g.model.IsDetached x)
    (fun hk hp hs => (hs.isDetached_iff fun _ hc => hP (hc ▸ hp)).trans hk) .rfl

theorem target?_eq (h : Evolves P g g') (x : NodeId) : g'.model.target? x = g.model.target? x :=
  h.keeps (I := fun k => k.model.target? x = g.model.target? x)
    (fun hk _ hs => (hs.target?_eq x).trans hk) rfl

theorem bare (h : Evolves P g g') (hb : Bare g.model) : Bare g'.model :=
  h.keeps (I := fun k => Bare k.model) (fun hk _ hs => hs.bare hk) hb

end Evolves

/-! ### Deletions -/

/-- A deletion that is not refused clears what leads into or out of a subtree and detaches it. -/
theorem steps_of_delete (hg : Managed g) {id : FacadeId} {gone : List NodeId}
    (h : delete id g = .ok gone g') :
    ∃ node g₁, g.attachedNode id = .ok node ∧ gone = g.model.preorder node ∧
      Evolves (ClearsBelow (g.model.preorder node)) g g₁ ∧ Step g₁ (.detach node) g' := by
  have hask := h
  rw [delete] at hask
  obtain ⟨node, _, hask, -⟩ := run_bind_eq_ok_iff.mp hask
  obtain ⟨hnode, rfl⟩ := ask_eq_ok_iff.mp hask
  obtain ⟨g₁, _, hrun, hev, hstep⟩ := delete_eq hg hnode
  obtain ⟨rfl, rfl⟩ := EStateM.Result.ok.inj (hrun.symm.trans h)
  exact ⟨node, g₁, hnode, rfl, hev, hstep⟩

/-- A deletion removes no node from the arena and adds none. -/
theorem exists_node?_delete_iff (hg : Managed g) {id : FacadeId} {gone : List NodeId}
    (h : delete id g = .ok gone g') :
    (∃ n, g'.model.node? x = some n) ↔ ∃ n, g.model.node? x = some n := by
  obtain ⟨node, g₁, -, -, hev, hstep⟩ := steps_of_delete hg h
  have hsize : g'.model.nodes.size = g.model.nodes.size :=
    (hstep.size_eq nofun).trans (hev.size_eq fun ⟨_, hc, _⟩ => nomatch hc)
  rw [Model.node?_eq_some_iff_lt, Model.node?_eq_some_iff_lt, hsize]

/-- A deletion detaches the nodes that it gives, and no others. -/
theorem isDetached_delete_iff (hg : Managed g) {id : FacadeId} {gone : List NodeId}
    (h : delete id g = .ok gone g') :
    g'.model.IsDetached x ↔ g.model.IsDetached x ∨ x ∈ gone := by
  obtain ⟨node, g₁, hnode, -, hev, hstep⟩ := steps_of_delete hg h
  obtain ⟨-, hgone⟩ := delete_detaches hg hnode h
  constructor
  · intro hx
    have ⟨n', hn', _⟩ := hx
    obtain ⟨n, hn⟩ := (exists_node?_delete_iff hg h).mp ⟨n', hn'⟩
    by_cases ha : g.model.IsAttached x
    · exact .inr ((hgone x).mpr ⟨ha, hx.not_isAttached⟩)
    · exact .inl (Model.isDetached_of_not_isAttached hn ha)
  · rintro (hx | hx)
    · exact hstep.isDetached (hev.isDetached hx)
    · obtain ⟨⟨n, hn, -⟩, hleft⟩ := (hgone x).mp hx
      obtain ⟨n', hn', -⟩ := (hev.extends_.trans hstep.extends_).same hn
      exact Model.isDetached_of_not_isAttached hn' hleft

/-- A call deletes a node. -/
def Call.Deletes (x : NodeId) (g : Graph) (c : Call) : Prop :=
  ∃ id gone g', c = .delete id ∧ Graph.delete id g = .ok gone g' ∧ x ∈ gone

/-- A call detaches what it deletes. -/
theorem Call.isDetached_iff (hg : Managed g) (c : Call) :
    (c.apply g).model.IsDetached x ↔ g.model.IsDetached x ∨ c.Deletes x g := by
  by_cases hc : c.IsDelete
  · cases c with
    | delete id =>
      rw [Call.apply, left]
      obtain ⟨gone, g', h, -⟩ | ⟨err, h⟩ := delete_atomic hg id
      · simp only [h, isDetached_delete_iff hg h]
        refine or_congr_right ⟨fun hx => ⟨id, gone, g', rfl, h, hx⟩, ?_⟩
        rintro ⟨_, _, _, ⟨rfl⟩, hrun, hx⟩
        obtain ⟨rfl, rfl⟩ := EStateM.Result.ok.inj (h.symm.trans hrun)
        exact hx
      · simp only [h]
        refine (or_iff_left ?_).symm
        rintro ⟨_, _, _, ⟨rfl⟩, hrun, -⟩
        cases h.symm.trans hrun
    | _ => exact hc.elim
  · rw [(evolves_of_not_isDelete hg hc).isDetached_iff fun h => h.2 _ rfl]
    refine (or_iff_left ?_).symm
    rintro ⟨_, _, _, rfl, -⟩
    exact hc trivial

/-- What is detached after calls was detached before, or one of the calls deletes it. -/
theorem isDetached_after_iff (hg : Managed g) (calls : List Call) :
    (g.after calls).model.IsDetached x ↔
      g.model.IsDetached x ∨ Occurs Call.apply (Call.Deletes x) g calls := by
  induction calls generalizing g with
  | nil => exact (or_iff_left not_occurs_nil).symm
  | cons c calls ih =>
    have hc := (c.evolves hg).managed hg
    show ((c.apply g).after calls).model.IsDetached x ↔ _
    rw [ih hc, c.isDetached_iff hg, occurs_cons, or_assoc]

end Graph

namespace Snapshot

open SchemaEditor.Graph (exists_ofModel evolves_after)

variable {s : Snapshot} {loaded : Loaded}

/-- In a graph over the model of a snapshot, whatever is asked of it, the types and bases of
attached nodes are attached. No call changes the target of a contribution, and a node is detached
exactly if one of the calls deleted it: so a contribution leads to a detached node exactly if its
target was deleted. -/
theorem attached_refer_to_attached (h : s.load = .ok loaded) (v : Versioning) :
    ∃ g, Graph.ofModel loaded.model v = .ok g ∧ ∀ calls : List Graph.Call,
      (∀ x n, (g.after calls).model.node? x = some n → n.attached = true →
        (∀ p, n.typeRef = some p → (g.after calls).model.IsAttached p) ∧
        ∀ p, n.base = some p → (g.after calls).model.IsAttached p) ∧
      (∀ x, (g.after calls).model.target? x = loaded.model.target? x) ∧
      ∀ t, (g.after calls).model.IsDetached t ↔
        Outcome.Occurs Graph.Call.apply (Graph.Call.Deletes t) g calls := by
  have hw := whole_of_load h
  obtain ⟨_, hgraph, hg⟩ := exists_ofModel hw.forest v
  refine ⟨_, hgraph, fun calls =>
    ⟨fun x n hn ha => ?_, (evolves_after hg calls).target?_eq, fun t => ?_⟩⟩
  · have htidy := (evolves_after hg calls).tidy hw.tidy
    have attached (slot : Usage.Slot) {p : NodeId} (hp : slot.reference n = some p) :=
      htidy ⟨x, slot⟩ p (Model.reference?_eq_some_iff.mpr ⟨n, hn, ha, hp⟩)
    exact ⟨fun p hp => attached .type hp, fun p hp => attached .base hp⟩
  · -- Nothing is detached in a snapshot.
    have hstart : ¬ loaded.model.IsDetached t := by
      rintro ⟨k, hk, hka⟩
      cases hka.symm.trans (hw.attached hk)
    rw [Graph.isDetached_after_iff hg, or_iff_right hstart]

/-- The order is deleted; the notes that are contributed into it are left. -/
def orderDeleted : List Graph.Call := [.facadeFor ⟨0⟩, .delete ⟨0⟩]

/-- The order is detached because it was deleted, and whatever happens the notes contribute into the
object they did. -/
theorem attached_refer_to_attached_contributedNotes :
    ∃ loaded g, contributedNotes.load = .ok loaded ∧
      Graph.ofModel loaded.model (.chain none) = .ok g ∧
      Outcome.Occurs Graph.Call.apply (Graph.Call.Deletes ⟨0⟩) g orderDeleted ∧
      (g.after orderDeleted).model.IsDetached ⟨0⟩ ∧
      ∀ calls, (g.after calls).model.target? ⟨4⟩ = loaded.model.target? ⟨4⟩ := by
  obtain ⟨loaded, g, hload, hgraph, hp⟩ := exists_graph (s := contributedNotes) (v := .chain none)
    (p := fun g => match Graph.delete ⟨0⟩ (g.after [.facadeFor ⟨0⟩]) with
      | .ok gone _ => decide (⟨0⟩ ∈ gone)
      | .error _ _ => false) (by decide +kernel)
  obtain ⟨g₀, hgraph₀, hcalls⟩ := attached_refer_to_attached hload (.chain none)
  obtain rfl := Except.ok.inj (hgraph₀.symm.trans hgraph)
  have hdeletes : Outcome.Occurs Graph.Call.apply (Graph.Call.Deletes ⟨0⟩) g₀ orderDeleted := by
    cases hrun : Graph.delete ⟨0⟩ (g₀.after [.facadeFor ⟨0⟩]) with
    | error => simp [hrun] at hp
    | ok gone g' =>
      rw [hrun] at hp
      exact ⟨[.facadeFor ⟨0⟩], .delete ⟨0⟩, [], rfl, ⟨0⟩, gone, g', rfl, hrun, of_decide_eq_true hp⟩
  exact ⟨loaded, g₀, hload, hgraph, hdeletes, ((hcalls orderDeleted).2.2 _).mpr hdeletes,
    fun calls => (hcalls calls).2.1 ⟨4⟩⟩

/-- The notes are attached and contribute into an order that is detached. -/
theorem contribution_outlives_target :
    ∃ loaded g, contributedNotes.load = .ok loaded ∧
      Graph.ofModel loaded.model (.chain none) = .ok g ∧
      ((g.after orderDeleted).model.node? ⟨4⟩).map (fun n => (n.attached, n.contributesTo)) =
        some (true, some ⟨0⟩) ∧
      ((g.after orderDeleted).model.node? ⟨0⟩).map (·.attached) = some false := by
  obtain ⟨loaded, g, hload, hgraph, hp⟩ := exists_graph (s := contributedNotes) (v := .chain none)
    (p := fun g => decide
      (((g.after orderDeleted).model.node? ⟨4⟩).map (fun n => (n.attached, n.contributesTo)) =
        some (true, some ⟨0⟩) ∧
      ((g.after orderDeleted).model.node? ⟨0⟩).map (·.attached) = some false)) (by decide +kernel)
  exact ⟨loaded, g, hload, hgraph, of_decide_eq_true hp⟩

end Snapshot

end SchemaEditor
