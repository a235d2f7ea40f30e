import SchemaEditor.Proofs.Action.Policy
import SchemaEditor.Proofs.Action.Requirement
import SchemaEditor.Proofs.Session.Loaded

/-!
# The policy of a session

A check has two stages. The first one says what the policy says about the library and the member
around the subject, and refuses only by prohibition; the second one is the precondition of the
action, which knows nothing of versioning. So a facade is editable exactly if it is attached and no
action is prohibited on it, and a session that is more permissive prohibits no more.
-/

namespace SchemaEditor

open Outcome (bind_eq_ok_iff)

namespace Graph

/-- A graph under another versioning. -/
def withVersioning (g : Graph) (v : Versioning) : Graph := { g with versioning := v }

variable {g : Graph} {f : FacadeId} {e : Facade.Entry}

/-- What the policy asks about a facade of a managed graph is answered from the library of its node
and from the member around it. -/
theorem Managed.exists_standing (hg : Managed g) (he : g.facades.entry? f = some e) :
    ∃ n top, g.model.node? e.node = some n ∧ g.model.memberOf e.node = .ok top ∧
      g.editability f = .ok (g.versioning.editability g.model n.library) ∧
      g.isNewToChain f = .ok (g.versioning.isNewToChain g.model top) := by
  obtain ⟨n, hn, -⟩ := Model.facadeKind?_eq_some_iff.mp (hg.facades.known he)
  obtain ⟨top, -, htop, -⟩ := hg.forest.exists_memberOf hn
  exact ⟨n, top, hn, htop, editability_of_entry he hn, isNewToChain_of_entry he htop⟩

end Graph

/-- A precondition knows nothing of versioning. -/
theorem Request.precondition_withVersioning (r : Request) (g : Graph) (v : Versioning) :
    r.precondition (g.withVersioning v) = r.precondition g := by
  obtain ⟨action, subject, param⟩ := r
  cases action <;> rfl

namespace Session

open SchemaEditor.Graph (Managed)
open Policy (Admits)

variable {s : Session} {action : Action} {f : FacadeId} {param : Option Param}
variable {editability : Editability} {new : Bool}

/-- The first stage of a check: what the manager around the subject says. -/
def checkPolicy (s : Session) (action : Action) (subject : FacadeId) (param : Option Param) :
    Except Action.Error PUnit := do
  (← s.managerFor subject).checkPolicy s.graph ⟨action, subject, param⟩

/-- A session under another versioning and another setting for additions. -/
def withPolicy (s : Session) (v : Versioning) (additions : Bool) : Session :=
  { s with graph := s.graph.withVersioning v, minorVersionAdditions := additions }

/-- A check is made in two stages. -/
theorem check_eq (s : Session) (action : Action) (f : FacadeId) (param : Option Param) :
    s.check action f param = (do
      s.checkPolicy action f param
      (⟨action, f, param⟩ : Request).precondition s.graph) := by
  simp only [check, checkPolicy, Manager.check, bind_assoc]

/-- The first stage says what the table says. -/
theorem checkPolicy_cases (he : s.graph.editability f = .ok editability)
    (hnew : s.graph.isNewToChain f = .ok new) (action : Action) (param : Option Param) :
    (Admits s.minorVersionAdditions editability new (action.changeClass param) ∧
      s.checkPolicy action f param = .ok ⟨⟩) ∨
    (¬ Admits s.minorVersionAdditions editability new (action.changeClass param) ∧
      ∃ reason, s.checkPolicy action f param = .error (.notPermitted action f reason)) := by
  have hmanager : s.managerFor f =
      .ok (.ofEditability editability s.minorVersionAdditions) := by
    rw [managerFor, he]
  rw [checkPolicy, hmanager, Outcome.ok_bind]
  exact Manager.checkPolicy_cases (r := ⟨action, f, param⟩) he hnew

/-- The first stage passes what the table lets pass. -/
theorem checkPolicy_eq_ok_iff (he : s.graph.editability f = .ok editability)
    (hnew : s.graph.isNewToChain f = .ok new) : s.checkPolicy action f param = .ok ⟨⟩ ↔
      Admits s.minorVersionAdditions editability new (action.changeClass param) := by
  obtain ⟨hadmits, hok⟩ | ⟨hadmits, reason, herror⟩ := checkPolicy_cases he hnew action param
  · exact iff_of_true hok hadmits
  · exact iff_of_false (by simp [herror]) hadmits

/-- A refusal by the first stage is a prohibition, and it is what the check gives. -/
theorem check_of_checkPolicy_error {err : Action.Error}
    (he : s.graph.editability f = .ok editability) (hnew : s.graph.isNewToChain f = .ok new)
    (h : s.checkPolicy action f param = .error err) :
    (∃ reason, err = .notPermitted action f reason) ∧ s.check action f param = .error err := by
  refine ⟨?_, by rw [check_eq, h]; rfl⟩
  obtain ⟨-, hok⟩ | ⟨-, reason, herror⟩ := checkPolicy_cases he hnew action param
  · cases hok.symm.trans h
  · exact ⟨reason, Except.error.inj (h.symm.trans herror)⟩

/-- Once the first stage passes, the check is the precondition. -/
theorem check_of_checkPolicy_ok (h : s.checkPolicy action f param = .ok ⟨⟩) :
    s.check action f param = (⟨action, f, param⟩ : Request).precondition s.graph := by
  rw [check_eq, h, Outcome.ok_bind]

/-- A check that succeeds passes both stages. -/
theorem check_eq_ok_iff_stages : s.check action f param = .ok ⟨⟩ ↔
    s.checkPolicy action f param = .ok ⟨⟩ ∧
      (⟨action, f, param⟩ : Request).precondition s.graph = .ok ⟨⟩ := by
  rw [check_eq]
  exact ⟨fun h => let ⟨⟨⟩, hpolicy, h⟩ := bind_eq_ok_iff.mp h; ⟨hpolicy, h⟩,
    fun ⟨hpolicy, h⟩ => bind_eq_ok_iff.mpr ⟨⟨⟩, hpolicy, h⟩⟩

/-- A check that succeeds or is refused by the precondition gives no prohibition. -/
theorem checkPolicy_eq_ok_iff_not_prohibited (he : s.graph.editability f = .ok editability)
    (hnew : s.graph.isNewToChain f = .ok new) : s.checkPolicy action f param = .ok ⟨⟩ ↔
      ∀ reason, s.check action f param ≠ .error (.notPermitted action f reason) := by
  constructor
  · intro hok reason hcheck
    rw [check_of_checkPolicy_ok hok] at hcheck
    obtain h | h := Request.refusedBy_precondition _ _ _ hcheck
    · cases h
    · exact h
  · intro h
    cases hpolicy : s.checkPolicy action f param with
    | ok => rfl
    | error err =>
      obtain ⟨⟨reason, rfl⟩, hcheck⟩ := check_of_checkPolicy_error he hnew hpolicy
      exact absurd hcheck (h reason)

/-- A facade is editable exactly if it is attached and nothing is prohibited on it. -/
theorem exists_isEditable {n : Node} (hcontent : s.graph.content f = .ok n)
    (he : s.graph.editability f = .ok editability) (hnew : s.graph.isNewToChain f = .ok new) :
    ∃ b, s.graph.isEditable f = .ok b ∧ (b = true ↔ n.attached = true ∧
      ∀ action param reason, s.check action f param ≠ .error (.notPermitted action f reason)) := by
  refine ⟨n.attached && Policy.isEditable editability new, ?_, ?_⟩
  · simp only [Graph.isEditable, Graph.isAttached, hcontent, he, hnew, Outcome.ok_bind, pure_bind]
    cases n.attached <;> rfl
  rw [Bool.and_eq_true]
  refine and_congr_right fun _ => ⟨fun h action param => ?_, fun h => ?_⟩
  · refine (checkPolicy_eq_ok_iff_not_prohibited he hnew).mp ?_
    exact (checkPolicy_eq_ok_iff he hnew).mpr (Policy.admits_of_isEditable h)
  · -- A new name is a structural change, so it passes only where everything does.
    have hname := (checkPolicy_eq_ok_iff_not_prohibited he hnew).mpr (h .setName none)
    exact ((checkPolicy_eq_ok_iff he hnew).mp hname).isEditable

/-- Once the first stage passes under two policies, the checks agree. -/
theorem check_withPolicy {v : Versioning} {additions : Bool}
    (h : s.checkPolicy action f param = .ok ⟨⟩)
    (h' : (s.withPolicy v additions).checkPolicy action f param = .ok ⟨⟩) :
    (s.withPolicy v additions).check action f param = s.check action f param := by
  rw [check_of_checkPolicy_ok h, check_of_checkPolicy_ok h']
  exact Request.precondition_withVersioning _ _ v

/-- A session that is more permissive disables nothing. -/
theorem check_withPolicy_mono {v : Versioning} {additions new' : Bool} {editability' : Editability}
    (he : s.graph.editability f = .ok editability) (hnew : s.graph.isNewToChain f = .ok new)
    (he' : (s.withPolicy v additions).graph.editability f = .ok editability')
    (hnew' : (s.withPolicy v additions).graph.isNewToChain f = .ok new')
    (hle : editability ≤ editability') (hlenew : new ≤ new')
    (hleadd : s.minorVersionAdditions ≤ additions) (h : s.check action f param = .ok ⟨⟩) :
    (s.withPolicy v additions).check action f param = .ok ⟨⟩ := by
  obtain ⟨hpolicy, -⟩ := check_eq_ok_iff_stages.mp h
  have hadmits := (checkPolicy_eq_ok_iff he hnew).mp hpolicy
  have hpolicy' := (checkPolicy_eq_ok_iff he' hnew').mpr (hadmits.mono hle hlenew hleadd)
  rw [check_withPolicy hpolicy hpolicy', h]

/-- All that a session decides about a facade by policy, where `n` is the node of the facade and
`top` the member around it. -/
structure FollowsPolicy (s : Session) (f : FacadeId) (n : Node) (top : NodeId) : Prop where
  /-- The first stage lets pass what the table does. -/
  passes : ∀ action param, s.checkPolicy action f param = .ok ⟨⟩ ↔
    Admits s.minorVersionAdditions (s.graph.versioning.editability s.graph.model n.library)
      (s.graph.versioning.isNewToChain s.graph.model top) (action.changeClass param)
  /-- A refusal by the first stage is a prohibition, whatever the precondition says. -/
  prohibits : ∀ action param err, s.checkPolicy action f param = .error err →
    (∃ reason, err = .notPermitted action f reason) ∧ s.check action f param = .error err
  /-- Once the first stage passes, the verdict is that of the precondition. -/
  verdict : ∀ action param, s.checkPolicy action f param = .ok ⟨⟩ →
    s.check action f param = (⟨action, f, param⟩ : Request).precondition s.graph
  /-- The verdict is the same under every policy whose first stage passes. -/
  independent : ∀ action param v additions, s.checkPolicy action f param = .ok ⟨⟩ →
    (s.withPolicy v additions).checkPolicy action f param = .ok ⟨⟩ →
      (s.withPolicy v additions).check action f param = s.check action f param
  /-- The facade is editable if it is attached and nothing is prohibited on it. -/
  editable : ∃ b, s.graph.isEditable f = .ok b ∧ (b = true ↔ n.attached = true ∧
    ∀ action param reason, s.check action f param ≠ .error (.notPermitted action f reason))
  /-- A more permissive policy disables nothing. -/
  monotone : ∀ v additions action param,
    s.graph.versioning.editability s.graph.model n.library ≤
      v.editability s.graph.model n.library →
    s.graph.versioning.isNewToChain s.graph.model top ≤ v.isNewToChain s.graph.model top →
    s.minorVersionAdditions ≤ additions → s.check action f param = .ok ⟨⟩ →
      (s.withPolicy v additions).check action f param = .ok ⟨⟩

theorem exists_followsPolicy (hg : Managed s.graph) {e : Facade.Entry}
    (hentry : s.graph.facades.entry? f = some e) :
    ∃ n top, s.graph.model.node? e.node = some n ∧ s.graph.model.memberOf e.node = .ok top ∧
      FollowsPolicy s f n top := by
  obtain ⟨n, top, hn, htop, he, hnew⟩ := hg.exists_standing hentry
  have hg' (v : Versioning) : Managed (s.graph.withVersioning v) :=
    ⟨hg.forest, hg.usage, hg.facades⟩
  refine ⟨n, top, hn, htop, ?_⟩
  exact {
    passes := fun _ _ => checkPolicy_eq_ok_iff he hnew
    prohibits := fun _ _ _ => check_of_checkPolicy_error he hnew
    verdict := fun _ _ => check_of_checkPolicy_ok
    independent := fun _ _ _ _ => check_withPolicy
    editable := exists_isEditable (Graph.content_of_entry hentry hn) he hnew
    monotone := fun v additions _ _ hle hlenew hleadd => check_withPolicy_mono he hnew
      (Graph.editability_of_entry (g := s.graph.withVersioning v) hentry hn)
      (Graph.isNewToChain_of_entry (g := s.graph.withVersioning v) hentry htop) hle hlenew hleadd }

/-- In a session over any model that was built or loaded, under any versioning and after any
history, the managers implement the policy and nothing else, for every facade that the session
knows. -/
theorem check_implements_policy {m : Model} (hm : Graph.Source m) (v : Versioning) :
    ∃ g, Graph.ofModel m v = .ok g ∧ ∀ calls : List Call,
      let s := (ofGraph g).after calls
      s.graph.versioning = v ∧ ∀ f e, s.graph.facades.entry? f = some e →
        ∃ n top, s.graph.model.node? e.node = some n ∧ s.graph.model.memberOf e.node = .ok top ∧
          FollowsPolicy s f n top := by
  obtain ⟨x, hgraph, hg⟩ := Graph.exists_ofModel hm.forest v
  refine ⟨_, hgraph, fun calls => ?_⟩
  have hev := evolves_after (s := ofGraph _) hg calls
  exact ⟨hev.versioning_eq, fun f e he => exists_followsPolicy (hev.managed hg) he⟩

end Session

namespace Snapshot

open Session (Call)

/-- The second version takes minor changes only, and its object is carried forward. -/
def carriedTable : Versioning := .fixed .readOnly [(⟨1⟩, .minorOnly)] [⟨4⟩]

/-- The object that is carried forward cannot be renamed, and can be described. -/
theorem policy_twoVersions :
    ∃ loaded g, twoVersions.load = .ok loaded ∧ Graph.ofModel loaded.model carriedTable = .ok g ∧
      let s := (Session.ofGraph g).after [.graph (.members ⟨1⟩)]
      s.graph.facades.entry? ⟨0⟩ = some ⟨⟨4⟩, .member .businessObject⟩ ∧
      s.isEnabled .setName ⟨0⟩ (some (.text "Sale")) = false ∧
      s.isEnabled .setDescription ⟨0⟩ (some (.text "A sale")) = true ∧
      ∃ n top, s.graph.model.node? ⟨4⟩ = some n ∧ s.graph.model.memberOf ⟨4⟩ = .ok top ∧
        Session.FollowsPolicy s ⟨0⟩ n top := by
  obtain ⟨loaded, g, hload, hgraph, hp⟩ := exists_graph_twoVersions (v := carriedTable)
    (p := fun g =>
    let s := (Session.ofGraph g).after [.graph (.members ⟨1⟩)]
    decide (s.graph.facades.entry? ⟨0⟩ = some ⟨⟨4⟩, .member .businessObject⟩ ∧
      s.isEnabled .setName ⟨0⟩ (some (.text "Sale")) = false ∧
      s.isEnabled .setDescription ⟨0⟩ (some (.text "A sale")) = true)) (by decide +kernel)
  obtain ⟨hentry, hname, hdescription⟩ := of_decide_eq_true hp
  obtain ⟨g', hgraph', h⟩ := Session.check_implements_policy (.loaded hload) carriedTable
  obtain rfl := Except.ok.inj (hgraph.symm.trans hgraph')
  exact ⟨loaded, g, hload, hgraph, hentry, hname, hdescription,
    (h [.graph (.members ⟨1⟩)]).2 ⟨0⟩ _ hentry⟩

end Snapshot

end SchemaEditor
