import SchemaEditor.Proofs.Action.Perform
import SchemaEditor.Proofs.Graph.Call
import SchemaEditor.Session.Basic

/-!
# Running actions in a session

A run that is refused leaves the session as it was, and it is refused exactly when the check is,
with the same refusal. A run whose check succeeds makes the steps of its action and then, if a
validator is set, hands out a facade for the member around the subject. `Call` lists what may
happen to a session, and `after` is the session after a sequence of it.
-/

namespace SchemaEditor

open SchemaEditor.Graph (Evolves Managed IsRegister)
open Outcome (bind_ok bind_error bind_eq_ok_iff)

/-! ### Managers -/

namespace Manager

variable {manager : Manager} {g : Graph} {r : Request} {e : Action.Error}

theorem run_of_refused (h : manager.check g r = .error e) : manager.run r g = .error e g := by
  show (Request.take (manager.check g r) >>= fun _ => r.perform) g = _
  rw [h]
  rfl

theorem run_of_checked (h : manager.check g r = .ok ⟨⟩) : manager.run r g = r.perform g := by
  show (Request.take (manager.check g r) >>= fun _ => r.perform) g = _
  rw [h]
  rfl

/-- A request that passes the check passes its two stages. -/
theorem check_eq_ok_iff :
    manager.check g r = .ok ⟨⟩ ↔ manager.checkPolicy g r = .ok ⟨⟩ ∧ r.precondition g = .ok ⟨⟩ := by
  constructor
  · intro h
    obtain ⟨⟨⟩, hpolicy, h⟩ := bind_eq_ok_iff.mp h
    exact ⟨hpolicy, h⟩
  · rintro ⟨hpolicy, h⟩
    exact bind_eq_ok_iff.mpr ⟨⟨⟩, hpolicy, h⟩

end Manager

namespace Session

variable {s s' : Session} {action : Action} {subject : FacadeId} {param : Option Param}
variable {e : Action.Error} {o : Outcome} {node : NodeId} {member : FacadeId}

/-! ### After the edit -/

@[simp] theorem recordState_graph (s : Session) (member : FacadeId) (state : ValidationState) :
    (s.recordState member state).graph = s.graph := by
  unfold recordState
  split <;> rfl

theorem revalidate_of_none (hv : s.validator = none) : s.revalidate subject = s := by
  simp only [revalidate, hv]

theorem revalidate_of_error {validator : Validator} {e : Graph.Error} {g : Graph}
    (hv : s.validator = some validator) (h : Graph.owningMember subject s.graph = .error e g) :
    s.revalidate subject = { s with graph := g } := by
  simp only [revalidate, hv, h]

theorem revalidate_of_ok {validator : Validator} {g : Graph} (hv : s.validator = some validator)
    (h : Graph.owningMember subject s.graph = .ok member g) :
    s.revalidate subject = { s with graph := g }.recordState member (validator g member) := by
  simp only [revalidate, hv, h]

theorem revalidate_settings (s : Session) (subject : FacadeId) :
    (s.revalidate subject).minorVersionAdditions = s.minorVersionAdditions ∧
      (s.revalidate subject).validator = s.validator := by
  unfold revalidate recordState
  split
  · exact ⟨rfl, rfl⟩
  · split
    · exact ⟨rfl, rfl⟩
    · split <;> exact ⟨rfl, rfl⟩

/-- Judging a member only hands out its facade. -/
theorem revalidate_evolves (hg : Managed s.graph) (subject : FacadeId) :
    Evolves IsRegister s.graph (s.revalidate subject).graph := by
  have hleads := Graph.owningMember_leads subject s.graph hg
  cases hv : s.validator with
  | none =>
    rw [revalidate_of_none hv]
    exact .refl
  | some validator =>
    cases howner : Graph.owningMember subject s.graph with
    | error e g =>
      rw [revalidate_of_error hv howner]
      rwa [Graph.left, howner] at hleads
    | ok member g =>
      rw [revalidate_of_ok hv howner, recordState_graph]
      rwa [Graph.left, howner] at hleads

/-! ### Check and run -/

theorem check_eq_ok_iff :
    s.check action subject param = .ok ⟨⟩ ↔ ∃ manager, s.managerFor subject = .ok manager ∧
      manager.check s.graph ⟨action, subject, param⟩ = .ok ⟨⟩ :=
  bind_eq_ok_iff

/-- A run whose check is refused is refused likewise, and nothing has changed. -/
theorem run_of_refused (h : s.check action subject param = .error e) :
    run action subject param s = .error e s := by
  obtain hmanager | ⟨manager, hmanager, hcheck⟩ := Outcome.bind_eq_error_iff.mp h
  · rw [run, hmanager]
  · simp only [run, hmanager, Manager.run_of_refused hcheck]

/-- A run whose check succeeds makes the steps of its action, and hands out facades. -/
theorem run_of_checked (hg : Managed s.graph) (h : s.check action subject param = .ok ⟨⟩) :
    ∃ node o s' g, s.graph.attachedNode subject = .ok node ∧
      run action subject param s = .ok o s' ∧
      Evolves ((⟨action, subject, param⟩ : Request).Makes s.graph node) s.graph g ∧
      Evolves IsRegister g s'.graph ∧
      o.detached = (⟨action, subject, param⟩ : Request).removed s.graph node := by
  obtain ⟨manager, hmanager, hcheck⟩ := check_eq_ok_iff.mp h
  obtain ⟨node, hnode, effect, g, hperform, hev, hremoved⟩ :=
    Request.performed_of_precondition hg (Manager.check_eq_ok_iff.mp hcheck).2
  let posted := { s with graph := g }.post
    (.change effect.event subject effect.target effect.detail)
  have hrun : run action subject param s = .ok
      ⟨action, subject, effect.created, effect.detached⟩ (posted.revalidate subject) := by
    simp only [run, hmanager, Manager.run_of_checked hcheck, hperform]
    rfl
  have hposted := revalidate_evolves (s := posted) (hev.managed hg) subject
  exact ⟨node, _, _, g, hnode, hrun, hev, hposted, hremoved⟩

/-- A run is refused exactly when its check is, and then nothing has changed. -/
theorem run_eq_error_iff (hg : Managed s.graph) :
    run action subject param s = .error e s' ↔
      s.check action subject param = .error e ∧ s' = s := by
  constructor
  · intro hrun
    cases hcheck : s.check action subject param with
    | error e' =>
      obtain ⟨rfl, rfl⟩ := EStateM.Result.error.inj ((run_of_refused hcheck).symm.trans hrun)
      exact ⟨rfl, rfl⟩
    | ok =>
      obtain ⟨_, o, s₁, _, _, hok, _⟩ := run_of_checked hg hcheck
      cases hok.symm.trans hrun
  · rintro ⟨hcheck, rfl⟩
    exact run_of_refused hcheck

/-- A run is performed exactly when its check succeeds. -/
theorem check_eq_ok_iff_run (hg : Managed s.graph) :
    s.check action subject param = .ok ⟨⟩ ↔ ∃ o s', run action subject param s = .ok o s' := by
  constructor
  · intro hcheck
    obtain ⟨_, o, s', _, _, hok, _⟩ := run_of_checked hg hcheck
    exact ⟨o, s', hok⟩
  · rintro ⟨o, s', hok⟩
    cases hcheck : s.check action subject param with
    | error e => cases (run_of_refused hcheck).symm.trans hok
    | ok => rfl

/-- An action is enabled exactly when it can be performed. -/
theorem isEnabled_iff_run (hg : Managed s.graph) :
    s.isEnabled action subject param = true ↔
      ∃ o s', run action subject param s = .ok o s' := by
  rw [← check_eq_ok_iff_run hg, isEnabled]
  cases s.check action subject param <;> simp [Except.isOk, Except.toBool]

/-! ### Histories -/

/-- What may happen to a session. -/
inductive Call where
  | run (action : Action) (subject : FacadeId) (param : Option Param)
  /-- A call of the graph. -/
  | graph (call : Graph.Call)
  /-- Any change of the bus. -/
  | setBus (bus : Bus)
  | setAdditions (minorVersionAdditions : Bool)
  | setValidator (validator : Option Validator)

/-- The session that a call leaves, whether it is refused or not. -/
def Call.apply (s : Session) : Call → Session
  | .run action subject param =>
    match Session.run action subject param s with
    | .ok _ s' => s'
    | .error _ s' => s'
  | .graph call => { s with graph := call.apply s.graph }
  | .setBus bus => { s with bus }
  | .setAdditions minorVersionAdditions => { s with minorVersionAdditions }
  | .setValidator validator => { s with validator }

/-- A session after a sequence of calls. -/
def after (s : Session) (calls : List Call) : Session := calls.foldl Call.apply s

/-- A run leaves the settings of the session as they are. -/
theorem Call.settings_of_run (s : Session) (action : Action) (subject : FacadeId)
    (param : Option Param) :
    ((Call.run action subject param).apply s).minorVersionAdditions = s.minorVersionAdditions ∧
      ((Call.run action subject param).apply s).validator = s.validator := by
  simp only [Call.apply, Session.run]
  cases s.managerFor subject with
  | error e => exact ⟨rfl, rfl⟩
  | ok manager =>
    cases hrun : manager.run ⟨action, subject, param⟩ s.graph with
    | error e g => simp [hrun]
    | ok effect g =>
      simp only [hrun]
      exact revalidate_settings ..

/-- Whatever happens to a session, its graph makes steps or stays as it is. -/
theorem Call.evolves (hg : Managed s.graph) (c : Call) :
    Evolves (fun _ _ => True) s.graph (c.apply s).graph := by
  cases c with
  | run action subject param =>
    simp only [Call.apply]
    cases hcheck : s.check action subject param with
    | error e =>
      rw [run_of_refused hcheck]
      exact .refl
    | ok =>
      obtain ⟨node, o, s', g, -, hrun, hmakes, hregister, -⟩ := run_of_checked hg hcheck
      rw [hrun]
      exact (hmakes.mono fun _ _ _ => trivial).trans (hregister.mono fun _ _ _ => trivial)
  | graph call => exact (call.evolves hg).mono fun _ _ _ => trivial
  | setBus | setAdditions | setValidator => exact .refl

/-- A run that is performed is one of the calls of a session. -/
theorem evolves_of_run (hg : Managed s.graph) (hrun : run action subject param s = .ok o s') :
    Evolves (fun _ _ => True) s.graph s'.graph := by
  have hev := (Call.run action subject param).evolves hg
  simpa only [Call.apply, hrun] using hev

/-- A history is a sequence of steps. -/
theorem evolves_after (hg : Managed s.graph) (calls : List Call) :
    Evolves (fun _ _ => True) s.graph (s.after calls).graph := by
  induction calls generalizing s with
  | nil => exact .refl
  | cons c calls ih =>
    have hev := c.evolves hg
    exact hev.trans (ih (hev.managed hg))

/-- There is a session over every forest, and whatever its history, its graph is managed. -/
theorem exists_managed {m : Model} (hf : m.Forest) (v : Versioning) :
    ∃ g, Graph.ofModel m v = .ok g ∧
      ∀ calls : List Call, Managed ((ofGraph g).after calls).graph := by
  obtain ⟨_, hgraph, hg⟩ := Graph.exists_ofModel hf v
  exact ⟨_, hgraph, fun calls => (evolves_after (s := ofGraph _) hg calls).managed hg⟩

/-- In a session over any model that was built, after any history, a run is refused exactly when
its check is: with the same refusal, and with the session as it was. When the check succeeds, the
action is performed. -/
theorem run_agrees_with_check (steps : List Builder.Call) (v : Versioning) :
    ∃ g, Graph.ofModel (Builder.empty.after steps).model v = .ok g ∧
      ∀ (calls : List Call) (action : Action) (subject : FacadeId) (param : Option Param),
        let s := (ofGraph g).after calls
        (∀ e s', run action subject param s = .error e s' ↔
          s.check action subject param = .error e ∧ s' = s) ∧
        (s.check action subject param = .ok ⟨⟩ ↔ ∃ o s', run action subject param s = .ok o s') := by
  obtain ⟨g, hgraph, hg⟩ := exists_managed (Builder.forest_after (b := .empty) .empty steps) v
  exact ⟨g, hgraph, fun calls _ _ _ =>
    ⟨fun _ _ => run_eq_error_iff (hg calls), check_eq_ok_iff_run (hg calls)⟩⟩

end Session

end SchemaEditor
