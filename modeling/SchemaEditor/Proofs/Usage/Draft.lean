import SchemaEditor.Proofs.Graph.Verify
import SchemaEditor.Proofs.Model.Building

/-!
# An index beside a model

In a draft the model and the index are changed each on its own: the index may be built from the
model at any time, references may be assigned and cleared through it, and the model may be changed
without it. Whatever is done, what the index has recorded are references of nodes, with the members
of these nodes. If the draft has no fault, it has recorded the references of all attached nodes;
the others that it has recorded are references that detached nodes still have.
-/

namespace SchemaEditor.Usage

open Model (Forest Extends)

/-- A model under construction and an index of references. -/
structure Draft where
  builder : Builder
  index : Index

namespace Draft

/-- The draft without nodes and references. -/
def empty : Draft := ⟨.empty, .empty⟩

/-- The model of a draft. -/
abbrev model (d : Draft) : Model := d.builder.model

/-- What may be done to a draft. -/
inductive Call where
  /-- The model is changed beside the index. -/
  | build (c : Builder.Call)
  /-- The index is started anew. -/
  | renew
  /-- The index is built from the model. -/
  | seed
  | assign (r : Reference) (provider : NodeId)
  | unassign (r : Reference)

/-- A draft after a call; a refused call leaves it as it was. -/
def Call.apply (d : Draft) : Call → Draft
  | .build c => { d with builder := c.apply d.builder }
  | .renew => { d with index := .empty }
  | .seed =>
    match Index.seed d.model with
    | .ok x => { d with index := x }
    | .error _ => d
  | .assign r provider => written (d.index.assign d.model r provider)
  | .unassign r => written (d.index.unassign d.model r)
where
  /-- The draft with the model and the index that a step gives, or else the one before it. -/
  written : Except Model.Error (Option NodeId × Model × Index) → Draft
    | .ok (_, m, x) => ⟨{ d.builder with model := m }, x⟩
    | .error _ => d

/-- A draft after a sequence of calls. -/
def after (d : Draft) (calls : List Call) : Draft := calls.foldl Call.apply d

variable {d : Draft} {r : Reference} {p : NodeId}

/-! ### What the index has recorded -/

/-- The model is a forest, and the index has recorded some references of its nodes. -/
structure Sound (d : Draft) : Prop where
  forest : Forest d.model
  shows : ∃ R, d.index.Shows R d.model.member?

namespace Sound

theorem empty : Sound .empty := ⟨.empty, _, .empty _⟩

/-- Writing a reference of a node, detached or not, whatever the index then has recorded for it. -/
theorem written (h : Sound d) {x : Index} {provider : Option NodeId} {m : Model}
    (hw : r.slot.write d.model r.user provider = .ok m)
    (hx : ∃ R, x.Shows R d.model.member?) : Sound ⟨{ d.builder with model := m }, x⟩ := by
  obtain ⟨-, rfl⟩ := r.slot.write_eq_ok_iff.mp hw
  obtain ⟨R, hx⟩ := hx
  have hf := h.forest.modifyNode r.user (r.slot.samePlace_put provider)
  exact ⟨hf, R, hx.of_extends h.forest hf (r.slot.extends_put _ _ _)⟩

theorem assign (h : Sound d) (r : Reference) (p : NodeId) :
    Sound (Call.apply d (.assign r p)) := by
  rw [Call.apply]
  cases ha : d.index.assign d.model r p with
  | error e => exact h
  | ok result =>
    obtain ⟨mem, hmem, ha⟩ := Outcome.bind_eq_ok_iff.mp ha
    obtain ⟨_, -, ha⟩ := Outcome.bind_eq_ok_iff.mp ha
    obtain ⟨m, hw, ha⟩ := Outcome.bind_eq_ok_iff.mp ha
    obtain rfl := Except.ok.inj ha
    obtain ⟨R, hx⟩ := h.shows
    exact h.written hw ⟨_, (hx.forget r).record (Function.update_self _ _ _)
      (Model.member?_eq_some_iff.mpr hmem) p⟩

theorem unassign (h : Sound d) (r : Reference) : Sound (Call.apply d (.unassign r)) := by
  rw [Call.apply]
  cases ha : d.index.unassign d.model r with
  | error e => exact h
  | ok result =>
    obtain ⟨m, hw, ha⟩ := Outcome.bind_eq_ok_iff.mp ha
    obtain rfl := Except.ok.inj ha
    obtain ⟨R, hx⟩ := h.shows
    exact h.written hw ⟨_, hx.forget r⟩

theorem apply (h : Sound d) (c : Call) : Sound (c.apply d) := by
  obtain ⟨R, hx⟩ := h.shows
  cases c with
  | build c =>
    have hf := Builder.forest_apply h.forest c
    exact ⟨hf, R, hx.of_extends h.forest hf (Builder.extends_apply h.forest c)⟩
  | renew => exact ⟨h.forest, _, .empty _⟩
  | seed =>
    obtain ⟨x, hseed, hagrees⟩ := Index.exists_seed d.model
    simp only [Call.apply, hseed]
    exact ⟨h.forest, _, hagrees⟩
  | assign r p => exact h.assign r p
  | unassign r => exact h.unassign r

theorem after (h : Sound d) (calls : List Call) : Sound (d.after calls) := by
  induction calls generalizing d with
  | nil => exact h
  | cons c calls ih => exact ih (h.apply c)

end Sound

/-! ### Drafts without faults -/

/-- What a check that finds no fault says of an index: it has recorded each reference of an attached
node, and else only references that detached nodes still have. -/
theorem provider?_of_verified (h : Sound d) (hv : Verify.usageFaults d.model d.index = []) :
    d.index.provider? r = some p ↔
      ∃ n, d.model.node? r.user = some n ∧ r.slot.reference n = some p ∧
        (n.attached = true ∨ d.index.provider? r = some p) := by
  obtain ⟨hmodel, hindex⟩ := Verify.usageFaults_eq_nil_iff.mp hv
  obtain ⟨R, hx⟩ := h.shows
  constructor
  · intro hr
    have hR := (hx.assigned r).symm.trans hr
    obtain ⟨n, hn, href⟩ := hindex p (hx.mem_providers.mpr ⟨r, hR⟩) r (hx.mem_usersOf.mpr hR)
    exact ⟨n, hn, href, .inr hr⟩
  · rintro ⟨n, hn, href, ha | hr⟩
    · exact (hmodel hn ha r.slot).trans href
    · exact hr

theorem mem_whereUsed_iff (h : Sound d) {top : NodeId} :
    top ∈ d.index.whereUsed p ↔
      ∃ r, d.index.provider? r = some p ∧ d.model.memberOf r.user = .ok top := by
  obtain ⟨R, hx⟩ := h.shows
  rw [hx.mem_whereUsed]
  simp only [hx.assigned, Model.member?_eq_some_iff]

theorem mem_usersOf_iff (h : Sound d) : r ∈ d.index.usersOf p ↔ d.index.provider? r = some p := by
  obtain ⟨R, hx⟩ := h.shows
  rw [hx.mem_usersOf, hx.assigned]

/-- Whatever was done to a model and to an index beside it: if no fault is found, a node is used in
the members of the attached nodes that refer to it, and else only in members of detached nodes that
still refer to it and are still recorded. Without such nodes, it is used in exactly the former. -/
theorem whereUsed_of_verified {calls : List Call} {facades : Facade.Registry}
    (h : verify (empty.after calls).model facades (empty.after calls).index = []) (p : NodeId) :
    (∀ top, top ∈ (empty.after calls).index.whereUsed p ↔
      ∃ (r : Reference) (n : Node), (empty.after calls).model.node? r.user = some n ∧
        r.slot.reference n = some p ∧
        (n.attached = true ∨ (empty.after calls).index.provider? r = some p) ∧
        (empty.after calls).model.memberOf r.user = .ok top) ∧
    ((∀ r ∈ (empty.after calls).index.usersOf p, (empty.after calls).model.IsAttached r.user) →
      ∀ top, top ∈ (empty.after calls).index.whereUsed p ↔
        ∃ id n, (empty.after calls).model.node? id = some n ∧ n.attached = true ∧
          (n.typeRef = some p ∨ n.base = some p) ∧
          (empty.after calls).model.memberOf id = .ok top) := by
  generalize hd : empty.after calls = d at h ⊢
  have hs : Sound d := hd ▸ Sound.empty.after calls
  have hv := (List.append_eq_nil_iff.mp h).2
  have used (top : NodeId) : top ∈ d.index.whereUsed p ↔
      ∃ (r : Reference) (n : Node), d.model.node? r.user = some n ∧ r.slot.reference n = some p ∧
        (n.attached = true ∨ d.index.provider? r = some p) ∧
        d.model.memberOf r.user = .ok top := by
    rw [mem_whereUsed_iff hs]
    constructor
    · rintro ⟨r, hr, hmem⟩
      obtain ⟨n, hn, href, hra⟩ := (provider?_of_verified hs hv).mp hr
      exact ⟨r, n, hn, href, hra, hmem⟩
    · rintro ⟨r, n, hn, href, hra, hmem⟩
      exact ⟨r, (provider?_of_verified hs hv).mpr ⟨n, hn, href, hra⟩, hmem⟩
  refine ⟨used, fun hattached top => (used top).trans ⟨?_, ?_⟩⟩
  · rintro ⟨⟨id, slot⟩, n, hn, href, hra, hmem⟩
    have hr := (provider?_of_verified hs hv).mpr ⟨n, hn, href, hra⟩
    obtain ⟨k, hk, ha⟩ := hattached _ ((mem_usersOf_iff hs).mpr hr)
    obtain rfl := Option.some.inj (hk.symm.trans hn)
    exact ⟨id, k, hn, ha, Slot.exists_reference_iff.mp ⟨slot, href⟩, hmem⟩
  · rintro ⟨id, n, hn, ha, href, hmem⟩
    obtain ⟨slot, hslot⟩ := Slot.exists_reference_iff.mpr href
    exact ⟨⟨id, slot⟩, n, hn, hslot, .inl ha, hmem⟩

/-- A price that is given a type through the index. -/
def typedPrice : List Call :=
  [.build (.library (.draft "Shop" "urn:shop")),
    .build (.member ⟨0⟩ (.member .simpleType) "Amount"),
    .build (.member ⟨0⟩ (.member .valueWithAttributes) "Price"), .assign ⟨⟨1⟩, .type⟩ ⟨0⟩]

/-- The type is used in the price, and in nothing else. -/
theorem whereUsed_typedPrice :
    verify (empty.after typedPrice).model .empty (empty.after typedPrice).index = [] ∧
      ∀ top, top ∈ (empty.after typedPrice).index.whereUsed ⟨0⟩ ↔
        ∃ id n, (empty.after typedPrice).model.node? id = some n ∧ n.attached = true ∧
          (n.typeRef = some ⟨0⟩ ∨ n.base = some ⟨0⟩) ∧
          (empty.after typedPrice).model.memberOf id = .ok top := by
  have hv : verify (empty.after typedPrice).model .empty (empty.after typedPrice).index = [] := by
    decide +kernel
  refine ⟨hv, (whereUsed_of_verified hv ⟨0⟩).2 fun r hr => ?_⟩
  have husers : (empty.after typedPrice).index.usersOf ⟨0⟩ = [⟨⟨1⟩, .type⟩] := by decide +kernel
  have hprice : ((empty.after typedPrice).model.node? ⟨1⟩).map (·.attached) = some true := by
    decide +kernel
  rw [husers, List.mem_singleton] at hr
  obtain ⟨n, hn, ha⟩ := Option.map_eq_some_iff.mp hprice
  exact ⟨n, hr ▸ hn, ha⟩

/-- The price is detached beside the index. -/
def detachedPrice : List Call := typedPrice ++ [.build (.model (.detach ⟨1⟩))]

/-- No fault is found, and the type is used in the detached price, although nothing attached refers to
the type. -/
theorem verified_detachedPrice :
    verify (empty.after detachedPrice).model .empty (empty.after detachedPrice).index = [] ∧
      (empty.after detachedPrice).index.whereUsed ⟨0⟩ = [⟨1⟩] ∧
      ¬ ∃ id n, (empty.after detachedPrice).model.node? id = some n ∧ n.attached = true ∧
        (n.typeRef = some ⟨0⟩ ∨ n.base = some ⟨0⟩) := by
  have hnone : (empty.after detachedPrice).model.nodeIds.all (fun id =>
      ((empty.after detachedPrice).model.node? id).all fun n =>
        ¬ (n.attached = true ∧ (n.typeRef = some ⟨0⟩ ∨ n.base = some ⟨0⟩))) = true := by
    decide +kernel
  refine ⟨by decide +kernel, by decide +kernel, ?_⟩
  rintro ⟨id, n, hn, ha, href⟩
  have := List.all_eq_true.mp hnone id (Model.mem_nodeIds.mpr (Model.lt_of_node? hn))
  rw [hn, Option.all_some, decide_eq_true_eq] at this
  exact this ⟨ha, href⟩

end Draft

end SchemaEditor.Usage
