import SchemaEditor.Proofs.Action.Writing
import SchemaEditor.Proofs.Session.CarriedForward
import SchemaEditor.Proofs.Session.Publication

/-!
# What runs write

A run that is performed writes the write set of its action, and nothing else: what comes after the
edit hands out a facade at most, which leaves the model alone. So a mediated call `Performs` a
request, or the model stays as it is.
-/

namespace SchemaEditor

namespace Session

open SchemaEditor.Graph (Managed)
open Outcome (Stands foldl_iff_stands)

variable {s s' : Session} {action : Action} {subject : FacadeId} {param : Option Param}
variable {o : Outcome}

/-- A run that is performed passed its check, and it made the edit of its action. -/
theorem exists_performed_of_run (hg : Managed s.graph)
    (hrun : run action subject param s = .ok o s') :
    s.check action subject param = .ok ⟨⟩ ∧ ∃ node effect g,
      s.graph.attachedNode subject = .ok node ∧
      (⟨action, subject, param⟩ : Request).requirement s.graph = .ok ⟨⟩ ∧
      (⟨action, subject, param⟩ : Request).perform s.graph = .ok effect g ∧
      s'.graph.model = g.model ∧
      o.detached = (⟨action, subject, param⟩ : Request).removed s.graph node := by
  have hcheck := (check_eq_ok_iff_run hg).mpr ⟨o, s', hrun⟩
  obtain ⟨manager, -, hmanager⟩ := check_eq_ok_iff.mp hcheck
  have hprecondition := (Manager.check_eq_ok_iff.mp hmanager).2
  obtain ⟨node, hnode, effect, g, hperform, hev, hremoved⟩ :=
    Request.performed_of_precondition hg hprecondition
  obtain ⟨rfl, rfl⟩ := EStateM.Result.ok.inj ((run_of_performed hcheck hperform).symm.trans hrun)
  let posted := { s with graph := g }.post
    (.change effect.event subject effect.target effect.detail)
  have hjudged := revalidate_evolves (s := posted) (hev.managed hg) subject
  exact ⟨hcheck, node, effect, g, hnode, (Request.attached_of_precondition hprecondition).2,
    hperform, hjudged.model_eq, hremoved⟩

theorem writes_of_run (hg : Managed s.graph) (hrun : run action subject param s = .ok o s') :
    ∃ node, s.graph.attachedNode subject = .ok node ∧
      (⟨action, subject, param⟩ : Request).Writes s.graph node s'.graph.model ∧
      o.detached = (⟨action, subject, param⟩ : Request).removed s.graph node := by
  obtain ⟨-, node, effect, g, hnode, hreq, hperform, hmodel, hremoved⟩ :=
    exists_performed_of_run hg hrun
  rw [hmodel]
  exact ⟨node, hnode, Request.writes_of_perform hg hnode hreq hperform, hremoved⟩

/-- In a session over any snapshot, whatever its history, a run that is performed changes nothing in
any node or library apart from the write set of its action. -/
theorem run_writes_exactly {snapshot : Snapshot} {loaded : Snapshot.Loaded} {v : Versioning}
    {g : Graph} (hload : snapshot.load = .ok loaded) (hgraph : Graph.ofModel loaded.model v = .ok g)
    (history : List Call) (hrun : run action subject param ((ofGraph g).after history) = .ok o s') :
    ∃ node, ((ofGraph g).after history).graph.attachedNode subject = .ok node ∧
      (⟨action, subject, param⟩ : Request).Writes ((ofGraph g).after history).graph node
        s'.graph.model := by
  obtain ⟨_, hgraph', -, -, hsound⟩ := exists_sound_of_load hload v
  obtain rfl := Except.ok.inj (hgraph'.symm.trans hgraph)
  obtain ⟨node, hnode, hwrites, -⟩ := writes_of_run (hsound.after history).managed hrun
  exact ⟨node, hnode, hwrites⟩

/-! ### Calls -/

/-- A call is a run of a request, and it is performed. -/
def Call.Performs (s : Session) (c : Call) (r : Request) : Prop :=
  c = .run r.action r.subject r.param ∧ ∃ o s', Session.run r.action r.subject r.param s = .ok o s'

namespace Call

variable {c : Call} {r r' : Request}

theorem Performs.unique (h : c.Performs s r) (h' : c.Performs s r') : r = r' := by
  obtain ⟨rfl, -⟩ := h
  obtain ⟨hsame, -⟩ := h'
  obtain ⟨action, subject, param⟩ := r
  obtain ⟨action', subject', param'⟩ := r'
  injection hsame with haction hsubject hparam
  subst haction hsubject hparam
  rfl

theorem Performs.performed (hg : Managed s.graph) (h : c.Performs s r) :
    ∃ node effect g, s.graph.attachedNode r.subject = .ok node ∧
      r.requirement s.graph = .ok ⟨⟩ ∧ r.perform s.graph = .ok effect g ∧
      (c.apply s).graph.model = g.model := by
  obtain ⟨rfl, o, s', hrun⟩ := h
  obtain ⟨-, node, effect, g, hnode, hreq, hperform, hmodel, -⟩ := exists_performed_of_run hg hrun
  simp only [Call.apply, hrun]
  exact ⟨node, effect, g, hnode, hreq, hperform, hmodel⟩

theorem Performs.writes (hg : Managed s.graph) (h : c.Performs s r) :
    ∃ node, s.graph.attachedNode r.subject = .ok node ∧
      r.Writes s.graph node (c.apply s).graph.model := by
  obtain ⟨node, effect, g, hnode, hreq, hperform, hmodel⟩ := h.performed hg
  rw [hmodel]
  exact ⟨node, hnode, Request.writes_of_perform hg hnode hreq hperform⟩

/-- A mediated call performs a request, or leaves the model as it is. -/
theorem exists_performs_or (hg : Managed s.graph) (hc : c.Mediated) : (∃ r, c.Performs s r) ∨
    (∀ r, ¬ c.Performs s r) ∧ (c.apply s).graph.model = s.graph.model := by
  cases c with
  | run action subject param =>
    cases hrun : Session.run action subject param s with
    | ok o s' => exact .inl ⟨⟨action, subject, param⟩, rfl, o, s', hrun⟩
    | error e s' =>
      obtain ⟨-, rfl⟩ := (run_eq_error_iff hg).mp hrun
      refine .inr ⟨?_, by simp only [Call.apply, hrun]⟩
      rintro r ⟨hsame, o, s', hok⟩
      injection hsame with haction hsubject hparam
      rw [← haction, ← hsubject, ← hparam, hrun] at hok
      cases hok
  | graph call =>
    refine .inr ⟨?_, Graph.Call.model_of_isLookup hg hc⟩
    rintro r ⟨hsame, -⟩
    cases hsame
  | setBus | setAdditions | setValidator =>
    refine .inr ⟨?_, rfl⟩
    rintro r ⟨hsame, -⟩
    cases hsame

end Call

/-- What some calls bring about of a property, and others undo, holds of it after a sequence of
calls exactly if a call of the first kind stands in the sequence. The property is of one kind from
the call on that adds it. -/
theorem after_iff_stands {p : PropertyProfile → Prop} {P Q : Session → Call → Prop}
    {B : Session → Prop} {calls : List Call} {x : NodeId} {n : Node} (hg : Managed s.graph)
    (hcalls : ∀ c ∈ calls, c.Mediated) (hx : (s.after calls).graph.model.node? x = some n)
    (hn : n.IsPropertyWith p)
    (hstart : (∀ k, s.graph.model.node? x = some k → k.IsPropertyWith p) → ¬ B s)
    (hstep : ∀ {t : Session} {c : Call}, Managed t.graph → c.Mediated →
      (∀ k, (c.apply t).graph.model.node? x = some k → k.IsPropertyWith p) →
        (B (c.apply t) ↔ P t c ∨ B t ∧ ¬ Q t c)) :
    B (s.after calls) ↔ Stands Call.apply P Q s calls := by
  have managed (before : List Call) : Managed (s.after before).graph :=
    (evolves_after hg before).managed hg
  have kept (before : List Call) {k : Node} (hbefore : before <+: calls)
      (hk : (s.after before).graph.model.node? x = some k) : k.IsPropertyWith p := by
    obtain ⟨rest, rfl⟩ := hbefore
    rw [after, List.foldl_append] at hx
    obtain ⟨k', hk', hkind, -⟩ := (evolves_after (managed before) rest).extends_.same hk
    obtain rfl := Option.some.inj (hk'.symm.trans hx)
    obtain ⟨kind, hproperty, hp⟩ := hn
    exact ⟨kind, hkind ▸ hproperty, hp⟩
  refine foldl_iff_stands (hstart fun k hk => kept [] List.nil_prefix hk) ?_
  rintro before c rest rfl
  refine hstep (managed before) (hcalls c (by simp)) fun k hk => ?_
  refine kept (before ++ [c]) ⟨rest, by simp⟩ ?_
  rw [after, List.foldl_append]
  exact hk

end Session

namespace Snapshot

open Session (Call)

/-- There is a run that is performed over a snapshot, and what is computed of it holds. -/
theorem exists_run (s : Snapshot) (v : Versioning) (history : List Call)
    (action : SchemaEditor.Action) (subject : FacadeId) (param : Option Param)
    {p : Session → SchemaEditor.Outcome → Session → Bool}
    (hp : (s.load.toOption.any fun loaded => (Graph.ofModel loaded.model v).toOption.any fun g =>
      match Session.run action subject param ((Session.ofGraph g).after history) with
      | .ok o s' => p ((Session.ofGraph g).after history) o s'
      | .error _ _ => false) = true) :
    ∃ loaded g o s', s.load = .ok loaded ∧ Graph.ofModel loaded.model v = .ok g ∧
      Session.run action subject param ((Session.ofGraph g).after history) = .ok o s' ∧
      p ((Session.ofGraph g).after history) o s' = true := by
  obtain ⟨loaded, g, hload, hgraph, hp⟩ := exists_graph hp
  cases hrun : Session.run action subject param ((Session.ofGraph g).after history) with
  | error e s' =>
    rw [hrun] at hp
    cases hp
  | ok o s' =>
    rw [hrun] at hp
    exact ⟨loaded, g, o, s', hload, hgraph, hrun, hp⟩

/-- An object of a draft, and an object of a published library that refers to the first one and to a
property of it. -/
def archive : Snapshot where
  libraries :=
    [{ name := "Sales", uri := "urn:sales", version := ⟨1, 0, 0⟩, status := .draft, managed := false
       lockedBy := none
       members := [.object "Order" none [⟨.property .element, "Total", none, false, ""⟩]] },
      { name := "Archive", uri := "urn:archive", version := ⟨1, 0, 0⟩, status := .final
        managed := false, lockedBy := none
        members := [{ Member.object "Invoice" none
            [⟨.property .elementRef, "OrderRef", some "Order", true, ""⟩,
              ⟨.property .element, "Amount", some "Order.Total", true, ""⟩]
          with baseKey := some "Order.Total" }] }]

/-- A deletion takes the property off the list of its owner and clears the references to it. -/
theorem writes_archive :
    ∃ loaded g o s' node, archive.load = .ok loaded ∧
      Graph.ofModel loaded.model (.chain none) = .ok g ∧
      let history : List Call := [.graph (.facadeFor ⟨4⟩)]
      let s := (Session.ofGraph g).after history
      Session.run .deleteProperty ⟨0⟩ none s = .ok o s' ∧
        s.graph.attachedNode ⟨0⟩ = .ok node ∧
        (⟨.deleteProperty, ⟨0⟩, none⟩ : Request).Writes s.graph node s'.graph.model := by
  obtain ⟨loaded, g, o, s', hload, hgraph, hrun, -⟩ := exists_run archive (.chain none)
    [.graph (.facadeFor ⟨4⟩)] .deleteProperty ⟨0⟩ none (p := fun _ _ _ => true)
    (by decide +kernel)
  obtain ⟨node, hnode, hwrites⟩ := Session.run_writes_exactly hload hgraph _ hrun
  exact ⟨loaded, g, o, s', node, hload, hgraph, hrun, hnode, hwrites⟩

end Snapshot

end SchemaEditor
