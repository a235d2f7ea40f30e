import SchemaEditor.Proofs.Usage.Draft

/-!
# Calls taken apart

`Steps` takes a call of a draft apart. An assignment asks for the member of the user and for the
provider, writes to the model, takes the reference out of the index and puts it back in. What it is
refused for it asks before it writes anything, so a call is `Refused` and has changed nothing, or it
is `Made` and has written the same to the model and to the index.

This holds on any model, also where owners and children do not agree, and on any model the two maps
of the index stay inverse to each other.
-/

namespace SchemaEditor.Usage.Draft

open Outcome (bind_ok bind_error)

variable {d : Draft} {r : Reference} {p : NodeId}

/-- Steps on a draft. A refused step leaves the draft that the steps before it had reached, so it
says something about a call that it changes nothing when it is refused. -/
abbrev Steps := EStateM Model.Error Draft

/-- Puts a query to the model. -/
def inquire {α : Type} (query : Model → Except Model.Error α) : Steps α := fun d =>
  match query d.model with
  | .ok a => .ok a d
  | .error e => .error e d

/-- Changes the model. -/
def changeModel (f : Model → Except Model.Error Model) : Steps PUnit := fun d =>
  match f d.model with
  | .ok m => .ok ⟨⟩ { d with builder := { d.builder with model := m } }
  | .error e => .error e d

/-- Changes the index. -/
def changeIndex (f : Index → Index) : Steps PUnit := fun d => .ok ⟨⟩ { d with index := f d.index }

namespace Call

/-- The steps of a call. One that writes a reference gives the node that the index had for it. -/
def steps : Call → Steps (Option NodeId)
  | .build c => fun d => .ok none { d with builder := c.apply d.builder }
  | .renew => do
    changeIndex fun _ => .empty
    return none
  | .seed => do
    let x ← inquire Index.seed
    changeIndex fun _ => x
    return none
  | .assign r provider => do
    let member ← inquire (·.memberOf r.user)
    let _ ← inquire (·.node provider)
    changeModel fun m => r.slot.write m r.user (some provider)
    let previous := (← get).index.provider? r
    changeIndex (·.forget r)
    changeIndex (·.record r provider member)
    return previous
  | .unassign r => do
    changeModel fun m => r.slot.write m r.user none
    let previous := (← get).index.provider? r
    changeIndex (·.forget r)
    return previous

/-- The nodes that a call names. -/
def nodes : Call → List NodeId
  | .assign r provider => [r.user, provider]
  | .unassign r => [r.user]
  | _ => []

/-- The reference that a call writes, and where it then points. -/
def writes? : Call → Option (Reference × Option NodeId)
  | .assign r provider => some (r, some provider)
  | .unassign r => some (r, none)
  | _ => none

end Call

section steps

variable {α : Type} {a : α} {e : Model.Error} {q : Model → Except Model.Error α} {n k : Node}

theorem inquire_of_ok (h : q d.model = .ok a) : inquire q d = .ok a d := by
  rw [inquire, h]

theorem inquire_of_error (h : q d.model = .error e) : inquire q d = .error e d := by
  rw [inquire, h]

/-- The draft with another reference in a slot of a node, and with another index. -/
def wrote (d : Draft) (r : Reference) (o : Option NodeId) (x : Index) : Draft :=
  ⟨{ d.builder with model := d.model.modifyNode r.user (r.slot.put o) }, x⟩

theorem changeModel_write (hn : d.model.node? r.user = some n) (o : Option NodeId) :
    changeModel (fun m => r.slot.write m r.user o) d = .ok ⟨⟩ (d.wrote r o d.index) := by
  rw [changeModel, Slot.write_of_node? _ hn]
  rfl

theorem changeModel_write_of_none (hn : d.model.node? r.user = none) (o : Option NodeId) :
    changeModel (fun m => r.slot.write m r.user o) d = .error (.unknownNode r.user) d := by
  rw [changeModel, Slot.write_of_none _ hn]

theorem memberOf_of_none (hn : d.model.node? r.user = none) :
    d.model.memberOf r.user = .error (.unknownNode r.user) := by
  rw [Model.memberOf, Model.node_of_none hn]

theorem assign_made (hn : d.model.node? r.user = some n) (hk : d.model.node? p = some k) :
    ∃ mem, (Call.assign r p).steps d = .ok (d.index.provider? r) ((Call.assign r p).apply d) ∧
      (Call.assign r p).apply d = d.wrote r (some p) ((d.index.forget r).record r p mem) := by
  obtain ⟨mem, hmem⟩ := Model.exists_member? hn
  have hmo := Model.member?_eq_some_iff.mp hmem
  have hdone : (Call.assign r p).apply d =
      d.wrote r (some p) ((d.index.forget r).record r p mem) := by
    simp only [Call.apply, Index.assign, hmo, Model.node_of_node? hk, Slot.write_of_node? _ hn,
      Outcome.ok_bind]
    rfl
  refine ⟨mem, ?_, hdone⟩
  rw [hdone, Call.steps, bind_ok (inquire_of_ok hmo),
    bind_ok (inquire_of_ok (Model.node_of_node? hk)), bind_ok (changeModel_write hn _)]
  rfl

theorem unassign_made (hn : d.model.node? r.user = some n) :
    (Call.unassign r).steps d = .ok (d.index.provider? r) ((Call.unassign r).apply d) ∧
      (Call.unassign r).apply d = d.wrote r none (d.index.forget r) := by
  have hdone : (Call.unassign r).apply d = d.wrote r none (d.index.forget r) := by
    simp only [Call.apply, Index.unassign, Slot.write_of_node? _ hn, Outcome.ok_bind]
    rfl
  refine ⟨?_, hdone⟩
  rw [hdone, Call.steps, bind_ok (changeModel_write hn _)]
  rfl

/-- A call names a node that does not exist. It gives this as the reason, and leaves the draft as it
was. -/
def Call.Refused (d : Draft) (c : Call) : Prop :=
  ∃ id ∈ c.nodes, d.model.node? id = none ∧ c.steps d = .error (.unknownNode id) d ∧ c.apply d = d

theorem assign_cases (d : Draft) (r : Reference) (p : NodeId) :
    (Call.assign r p).Refused d ∨
      (∃ n, d.model.node? r.user = some n) ∧ ∃ k, d.model.node? p = some k := by
  cases hn : d.model.node? r.user with
  | none =>
    refine .inl ⟨r.user, by simp [Call.nodes], hn, ?_, ?_⟩
    · rw [Call.steps, bind_error (inquire_of_error (memberOf_of_none hn))]
    · simp only [Call.apply, Index.assign, memberOf_of_none hn]
      rfl
  | some n =>
    obtain ⟨mem, hmem⟩ := Model.exists_member? hn
    have hmo := Model.member?_eq_some_iff.mp hmem
    cases hk : d.model.node? p with
    | none =>
      refine .inl ⟨p, by simp [Call.nodes], hk, ?_, ?_⟩
      · rw [Call.steps, bind_ok (inquire_of_ok hmo),
          bind_error (inquire_of_error (Model.node_of_none hk))]
      · simp only [Call.apply, Index.assign, hmo, Model.node_of_none hk, Outcome.ok_bind]
        rfl
    | some k => exact .inr ⟨⟨n, rfl⟩, k, rfl⟩

theorem unassign_cases (d : Draft) (r : Reference) :
    (Call.unassign r).Refused d ∨ ∃ n, d.model.node? r.user = some n := by
  cases hn : d.model.node? r.user with
  | none =>
    refine .inl ⟨r.user, by simp [Call.nodes], hn, ?_, ?_⟩
    · rw [Call.steps, bind_error (changeModel_write_of_none hn none)]
    · simp only [Call.apply, Index.unassign, Slot.write_of_none _ hn]
      rfl
  | some n => exact .inr ⟨n, rfl⟩

/-- A call names nodes that exist, and is made. If it writes a reference, it gives the node that the
index had for it. Then the index has what is written for this reference, and for all others what it
had; nothing else is written in the model, and it has the same for the reference as the index. -/
def Call.Made (d : Draft) (c : Call) : Prop :=
  (∀ id ∈ c.nodes, ∃ n, d.model.node? id = some n) ∧
    ∃ previous, c.steps d = .ok previous (c.apply d) ∧ ∀ r o, c.writes? = some (r, o) →
      previous = d.index.provider? r ∧
      (c.apply d).index.provider? = Function.update d.index.provider? r o ∧
      (c.apply d).model = d.model.modifyNode r.user (r.slot.put o) ∧
      ∃ n, (c.apply d).model.node? r.user = some n ∧
        r.slot.reference n = (c.apply d).index.provider? r

theorem Call.made_of_wrote {c : Call} {o : Option NodeId} {x : Index}
    (hnodes : ∀ id ∈ c.nodes, ∃ n, d.model.node? id = some n) (hn : d.model.node? r.user = some n)
    (hsteps : c.steps d = .ok (d.index.provider? r) (c.apply d))
    (hwrites : c.writes? = some (r, o)) (happly : c.apply d = d.wrote r o x)
    (hx : x.provider? = Function.update d.index.provider? r o) : c.Made d := by
  refine ⟨hnodes, _, hsteps, fun r' o' hw => ?_⟩
  obtain ⟨rfl, rfl⟩ := Prod.mk.inj (Option.some.inj (hwrites.symm.trans hw))
  have hnode : (d.wrote r o x).model.node? r.user = some (r.slot.put o n) := by
    rw [wrote, Model.node?_modifyNode_self, hn, Option.map_some]
  rw [happly]
  refine ⟨rfl, hx, rfl, _, hnode, ?_⟩
  rw [Slot.reference_put, if_pos rfl, wrote, hx, Function.update_self]

theorem refused_or_made (d : Draft) (c : Call) : c.Refused d ∨ c.Made d := by
  have other {c : Call} {previous : Option NodeId} (hnodes : c.nodes = [])
      (hwrites : c.writes? = none) (hsteps : c.steps d = .ok previous (c.apply d)) :
      c.Refused d ∨ c.Made d := by
    refine .inr ⟨by simp [hnodes], previous, hsteps, fun r o hw => ?_⟩
    cases hwrites.symm.trans hw
  cases c with
  | build c => exact other rfl rfl rfl
  | renew => exact other rfl rfl rfl
  | seed =>
    obtain ⟨x, hseed, -⟩ := Index.exists_seed d.model
    have happly : Call.seed.apply d = { d with index := x } := by rw [Call.apply, hseed]
    have hsteps : Call.seed.steps d = .ok none (Call.seed.apply d) := by
      rw [happly, Call.steps, bind_ok (inquire_of_ok hseed)]
      rfl
    exact other rfl rfl hsteps
  | assign r p =>
    obtain hrefused | ⟨⟨n, hn⟩, k, hk⟩ := assign_cases d r p
    · exact .inl hrefused
    · obtain ⟨mem, hsteps, happly⟩ := assign_made hn hk
      refine .inr (Call.made_of_wrote ?_ hn hsteps rfl happly ?_)
      · simp [Call.nodes, hn, hk]
      · rw [Index.provider?_record, Index.provider?_forget, Function.update_idem]
  | unassign r =>
    obtain hrefused | ⟨n, hn⟩ := unassign_cases d r
    · exact .inl hrefused
    · obtain ⟨hsteps, happly⟩ := unassign_made hn
      refine .inr (Call.made_of_wrote ?_ hn hsteps rfl happly (Index.provider?_forget _ r))
      simp [Call.nodes, hn]

end steps

/-! ### Inverse maps -/

/-- A call keeps the two maps of the index inverse. -/
theorem inverse_apply (h : d.index.Inverse) (c : Call) : (c.apply d).index.Inverse := by
  have kept {c : Call} (hc : c.Refused d) : (c.apply d).index.Inverse := by
    obtain ⟨-, -, -, -, happly⟩ := hc
    rwa [happly]
  cases c with
  | build c => exact h
  | renew => exact .empty
  | seed =>
    obtain ⟨x, hseed, hagrees⟩ := Index.exists_seed d.model
    rw [Call.apply, hseed]
    exact hagrees.inverse
  | assign r p =>
    obtain hrefused | ⟨⟨n, hn⟩, k, hk⟩ := assign_cases d r p
    · exact kept hrefused
    · obtain ⟨mem, -, happly⟩ := assign_made hn hk
      -- The reference is recorded anew, also where it pointed at the same node before.
      have hforgotten : (d.index.forget r).provider? r = none := by
        rw [Index.provider?_forget, Function.update_self]
      rw [happly]
      exact (h.forget r).record hforgotten p mem
  | unassign r =>
    obtain hrefused | ⟨n, hn⟩ := unassign_cases d r
    · exact kept hrefused
    · rw [(unassign_made hn).2]
      exact h.forget r

theorem inverse_after (h : d.index.Inverse) (calls : List Call) :
    (d.after calls).index.Inverse := by
  induction calls generalizing d with
  | nil => exact h
  | cons c calls ih => exact ih (inverse_apply h c)

/-- The draft over a model of which nothing is indexed yet. -/
def unindexed (b : Builder) : Draft := ⟨b, .empty⟩

/-- Whatever the model is, and whatever is done to it and to an index beside it that starts without
references: a reference is among the users of a node exactly if it has this node as its provider,
and the providers are the nodes with users. Users come in their order, and neither a user nor a
provider comes twice. A further call is refused without a trace, or it is made; then model and index
have the same for the reference that it writes. -/
theorem maps_stay_inverse (b : Builder) (calls : List Call) :
    (∀ r p, r ∈ ((unindexed b).after calls).index.usersOf p ↔
      ((unindexed b).after calls).index.provider? r = some p) ∧
    (∀ p, p ∈ ((unindexed b).after calls).index.providers ↔
      ((unindexed b).after calls).index.usersOf p ≠ []) ∧
    ((unindexed b).after calls).index.providers.Nodup ∧
    (∀ p, (((unindexed b).after calls).index.usersOf p).Pairwise Reference.Before ∧
      (((unindexed b).after calls).index.usersOf p).Nodup) ∧
    ∀ c : Call, c.Refused ((unindexed b).after calls) ∨ c.Made ((unindexed b).after calls) := by
  have h := inverse_after (d := unindexed b) .empty calls
  generalize (unindexed b).after calls = d at h ⊢
  refine ⟨fun r p => h.mem_usersOf, fun p => h.mem_providers, ?_, fun p => ⟨?_, ?_⟩,
    refused_or_made d⟩
  · exact d.index.providers_increasing.imp fun hab he => Nat.ne_of_lt hab (congrArg NodeId.index he)
  · exact d.index.usersOf_increasing p
  · exact (d.index.usersOf_increasing p).imp Reference.Before.ne

end SchemaEditor.Usage.Draft
