import SchemaEditor.Proofs.Usage.Reference
import SchemaEditor.Proofs.Usage.Shows

/-!
# Indexes that agree with a model

`Agrees` says that an index shows exactly the references of the attached nodes of a model. The
index that `seed` builds does (`exists_seed`), and so does an index through which a reference is
assigned or cleared. A change of the model alone keeps the agreement if it keeps the references:
this is so for everything but detaching, and for detaching too once no reference leads below.
-/

namespace SchemaEditor.Usage

open Model (Forest Extends)

variable {m m' : Model} {x : Index} {r : Reference} {id p : NodeId} {n : Node}

namespace Index

/-- An index shows the same in a larger model: its users still have their members. -/
theorem Shows.of_extends {R : Reference → Option NodeId} (h : x.Shows R m.member?) (hf : Forest m)
    (hf' : Forest m') (hm : Extends m m') : x.Shows R m'.member? :=
  h.congr (fun _ => rfl) fun r p hr => by
    obtain ⟨top, htop⟩ := h.owned hr
    obtain ⟨n, hn⟩ := Model.exists_node?_of_member? htop
    exact hf.member?_of_extends hf' hm hn

/-- The index shows the references of the attached nodes. -/
def Agrees (x : Index) (m : Model) : Prop := x.Shows m.reference? m.member?

namespace Agrees

/-- A larger model with the same references. -/
theorem of_extends (h : x.Agrees m) (hf : Forest m) (hf' : Forest m') (hm : Extends m m')
    (hr : ∀ r, m'.reference? r = m.reference? r) : x.Agrees m' :=
  (Shows.of_extends h hf hf' hm).congr hr fun _ _ _ => rfl

theorem write {o : Option NodeId} (h : x.Shows (Function.update m.reference? r o) m.member?)
    (hf : Forest m) (hn : m.node? r.user = some n) (ha : n.attached = true) :
    x.Agrees (m.modifyNode r.user (r.slot.put o)) := by
  rw [Agrees, Model.reference?_write hn ha]
  exact h.of_extends hf (hf.modifyNode r.user (r.slot.samePlace_put o)) (r.slot.extends_put m _ o)

/-- Assigning a reference of an attached node succeeds and keeps the agreement. -/
theorem assign {k : Node} (h : x.Agrees m) (hf : Forest m) (hn : m.node? r.user = some n)
    (ha : n.attached = true) (hp : m.node? p = some k) :
    ∃ x', x.assign m r p = .ok (m.reference? r, m.modifyNode r.user (r.slot.put (some p)), x') ∧
      x'.Agrees (m.modifyNode r.user (r.slot.put (some p))) := by
  obtain ⟨mem, hmem⟩ := Model.exists_member? hn
  have hmo := Model.member?_eq_some_iff.mp hmem
  refine ⟨(x.forget r).record r p mem, ?_, ?_⟩
  · simp only [Index.assign, hmo, Model.node_of_node? hp, Slot.write_of_node? _ hn,
      Outcome.ok_bind, h.assigned r]
    rfl
  · refine write ?_ hf hn ha
    have hclear : Function.update m.reference? r none r = none := by rw [Function.update_self]
    have hrec := (h.forget r).record hclear hmem p
    rwa [Function.update_idem] at hrec

/-- Clearing a reference of an attached node succeeds and keeps the agreement. -/
theorem unassign (h : x.Agrees m) (hf : Forest m) (hn : m.node? r.user = some n)
    (ha : n.attached = true) :
    x.unassign m r =
        .ok (m.reference? r, m.modifyNode r.user (r.slot.put none), x.forget r) ∧
      (x.forget r).Agrees (m.modifyNode r.user (r.slot.put none)) := by
  refine ⟨?_, write (h.forget r) hf hn ha⟩
  simp only [Index.unassign, Slot.write_of_node? _ hn, Outcome.ok_bind, h.assigned r]
  rfl

end Agrees

/-! ### The index built from nothing -/

theorem shows_recordSlot {R : Reference → Option NodeId} {M : NodeId → Option NodeId}
    {mem : NodeId} {slot : Slot} (h : x.Shows R M) (hR : R ⟨id, slot⟩ = none)
    (hm : M id = some mem) (n : Node) :
    (x.recordSlot id n mem slot).Shows
      (Function.update R ⟨id, slot⟩ (slot.reference n)) M := by
  unfold recordSlot
  cases slot.reference n with
  | none =>
    rw [Function.update_eq_self_iff.mpr hR.symm]
    exact h
  | some p => exact h.record hR hm p

/-- The references of some of the nodes. -/
def within (m : Model) (ids : List NodeId) (r : Reference) : Option NodeId :=
  if r.user ∈ ids then m.reference? r else none

/-- One step of the walk records the references of one more node. -/
theorem recordNode_within {ids : List NodeId} (hid : id ∉ ids)
    (hn : m.node? id = some n) (h : x.Shows (within m ids) m.member?) :
    ∃ x', recordNode m x id = .ok x' ∧ x'.Shows (within m (ids ++ [id])) m.member? := by
  have hnone (slot) : within m ids ⟨id, slot⟩ = none := if_neg hid
  cases ha : n.attached with
  | false =>
    refine ⟨x, by simp [recordNode, Model.node_of_node? hn, ha, pure, Except.pure], ?_⟩
    have hsame : within m (ids ++ [id]) = within m ids := by
      funext r
      by_cases hr : r.user = id
      · have hout : m.reference? r = none := by simp [Model.reference?, hr, hn, ha]
        simp [within, hout]
      · simp [within, hr]
    rwa [hsame]
  | true =>
    obtain ⟨mem, hmem⟩ := Model.exists_member? hn
    refine ⟨(x.recordSlot id n mem .type).recordSlot id n mem .base, ?_, ?_⟩
    · simp [recordNode, Model.node_of_node? hn, ha, Model.member?_eq_some_iff.mp hmem, pure,
        Except.pure]
    · have htype := shows_recordSlot h (hnone .type) hmem n
      have hbase : Function.update (within m ids) ⟨id, .type⟩ (Slot.type.reference n)
          ⟨id, .base⟩ = none := by
        rw [Function.update_of_ne (by simp), hnone]
      have hboth := shows_recordSlot htype hbase hmem n
      refine hboth.congr (fun r => ?_) fun _ _ _ => rfl
      obtain ⟨user, slot⟩ := r
      by_cases hu : user = id
      · subst hu
        have href : within m (ids ++ [user]) ⟨user, slot⟩ = slot.reference n := by
          rw [within, if_pos (by simp)]
          exact Model.reference?_of_attached (r := ⟨user, slot⟩) hn ha
        rw [href]
        cases slot <;> simp [Function.update]
      · have hother (slot') : (⟨user, slot⟩ : Reference) ≠ ⟨id, slot'⟩ := by simp [hu]
        rw [Function.update_of_ne (hother _), Function.update_of_ne (hother _)]
        simp [within, hu]

theorem foldlM_recordNode {done ids : List NodeId}
    (hids : ∀ id ∈ ids, ∃ n, m.node? id = some n) (hnd : (done ++ ids).Nodup)
    (h : x.Shows (within m done) m.member?) :
    ∃ x', ids.foldlM (recordNode m) x = .ok x' ∧ x'.Shows (within m (done ++ ids)) m.member? := by
  induction ids generalizing done x with
  | nil => exact ⟨x, rfl, by simpa using h⟩
  | cons id ids ih =>
    obtain ⟨n, hn⟩ := hids id List.mem_cons_self
    have hid : id ∉ done := fun hd =>
      (List.nodup_append.mp hnd).2.2 id hd id List.mem_cons_self rfl
    obtain ⟨x₁, hstep, hx₁⟩ := recordNode_within hid hn h
    obtain ⟨x', hrest, hx'⟩ := ih (fun i hi => hids i (List.mem_cons_of_mem _ hi))
      (by simpa using hnd) hx₁
    refine ⟨x', ?_, by simpa using hx'⟩
    rw [List.foldlM_cons, hstep, Outcome.ok_bind, hrest]

/-- The index of a model can be built, and it agrees with the model. -/
theorem exists_seed (m : Model) : ∃ x, seed m = .ok x ∧ x.Agrees m := by
  have hstart : Index.empty.Shows (within m []) m.member? :=
    (Shows.empty m.member?).congr (fun _ => by simp [within]) fun _ _ h => by cases h
  have hnd : ([] ++ m.nodeIds).Nodup := by
    rw [List.nil_append, Model.nodeIds]
    exact List.nodup_range.map fun i j h => (NodeId.mk.injEq i j).mp h
  obtain ⟨x, hx, hshow⟩ := foldlM_recordNode
    (fun id hid => Model.exists_node? (Model.mem_nodeIds.mp hid)) hnd hstart
  refine ⟨x, hx, hshow.congr (fun r => ?_) fun _ _ _ => rfl⟩
  rw [List.nil_append, within]
  split
  · rfl
  · next hr =>
    have hnone := Model.node?_eq_none_iff.mpr
      (Nat.not_lt.mp fun hlt => hr (Model.mem_nodeIds.mpr hlt))
    simp [Model.reference?, hnone]

end Index

end SchemaEditor.Usage
