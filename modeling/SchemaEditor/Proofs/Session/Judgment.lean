import SchemaEditor.Proofs.Session.Fingerprint
import SchemaEditor.Proofs.Session.Writing

/-!
# Judgments

A run that is performed has the member around its subject judged, if a validator is set and the
member has a facade. What the validator says is recorded for this member and for no other, and an
event follows exactly if the entry of the member is another one than before. An entry that says the
state is unknown is another one than none, although both read the same; in every other case the
event tells of a state that has changed.
-/

namespace SchemaEditor

namespace Session

open SchemaEditor.Graph (Evolves IsRegister Managed)
open Outcome (bind_ok)

variable {s s' t : Session} {action : Action} {subject member x : FacadeId} {param : Option Param}
variable {state : ValidationState} {changes : List Event}

/-- The event that tells the state of a member. -/
def judgmentOf (s : Session) (x : FacadeId) : Event :=
  .change .validationChange x none
    (.validation (s.validation x).isValid (s.validation x).findings.length)

theorem judgmentOf_inj (h : s.judgmentOf x = s.judgmentOf member) : x = member :=
  Option.some.inj (congrArg Event.subject h)

/-- What was posted while the states of one session became those of another: at most one event, for
a member whose state has changed, or has been recorded as unknown for the first time. -/
structure TellsStates (s t : Session) (changes : List Event) : Prop where
  bus : t.bus = s.bus.postAll changes
  length_le : changes.length ≤ 1
  judgment : ∀ event ∈ changes, ∃ x, event = t.judgmentOf x
  mem_iff : ∀ x, t.judgmentOf x ∈ changes ↔
    t.validation x ≠ s.validation x ∨ s.states[x]? = none ∧ t.states[x]? = some .unknown

theorem TellsStates.of_same (hbus : t.bus = s.bus) (hstates : t.states = s.states) :
    TellsStates s t [] where
  bus := hbus
  length_le := Nat.zero_le _
  judgment := List.forall_mem_nil _
  mem_iff x := by
    simp only [List.not_mem_nil, validation, hstates, ne_eq, not_true_eq_false, false_or,
      false_iff, not_and]
    intro hnone hsome
    cases hnone.symm.trans hsome

/-! ### Recording -/

theorem states_recordState (s : Session) (member : FacadeId) (state : ValidationState)
    (x : FacadeId) : (s.recordState member state).states[x]? =
      if x = member then some state else s.states[x]? := by
  unfold recordState
  split
  · next hsame =>
    split
    · next h => rw [h, hsame]
    · rfl
  · show (s.states.insert member state)[x]? = _
    simp only [Std.TreeMap.getElem?_insert, Std.LawfulEqCmp.compare_eq_iff_eq,
      eq_comm (a := member)]

theorem validation_recordState (s : Session) (member : FacadeId) (state : ValidationState) :
    (s.recordState member state).validation member = state := by
  rw [validation, states_recordState, if_pos rfl, Option.getD_some]

/-- An event follows if another entry is recorded. -/
theorem exists_tellsStates_recordState (s : Session) (member : FacadeId)
    (state : ValidationState) : ∃ changes, TellsStates s (s.recordState member state) changes := by
  by_cases hsame : s.states[member]? = some state
  · rw [recordState, if_pos hsame]
    exact ⟨[], .of_same rfl rfl⟩
  refine ⟨[(s.recordState member state).judgmentOf member], ?_, Nat.le_refl _, ?_, fun x => ?_⟩
  · rw [judgmentOf, validation_recordState, recordState, if_neg hsame]
    rfl
  · intro event hevent
    exact ⟨member, List.mem_singleton.mp hevent⟩
  · rw [List.mem_singleton]
    by_cases hx : x = member
    · subst hx
      rw [validation_recordState, states_recordState, if_pos rfl]
      refine iff_of_true rfl ?_
      cases hentry : s.states[x]? with
      | none =>
        by_cases hunknown : state = .unknown
        · exact .inr ⟨rfl, congrArg some hunknown⟩
        · exact .inl (by rwa [validation, hentry])
      | some old =>
        refine .inl fun heq => hsame ?_
        rw [hentry, heq, validation, hentry, Option.getD_some]
    · have hkept : (s.recordState member state).states[x]? = s.states[x]? := by
        rw [states_recordState, if_neg hx]
      refine iff_of_false (fun h => hx (judgmentOf_inj h)) ?_
      rintro (hchanged | ⟨hnone, hsome⟩)
      · exact hchanged (by rw [validation, validation, hkept])
      · cases (hkept.symm.trans hsome).symm.trans hnone

/-! ### Judging -/

theorem exists_tellsStates_revalidate (s : Session) (subject : FacadeId) :
    ∃ changes, TellsStates s (s.revalidate subject) changes := by
  cases hv : s.validator with
  | none =>
    rw [revalidate_of_none hv]
    exact ⟨[], .of_same rfl rfl⟩
  | some validator =>
    cases howner : Graph.owningMember subject s.graph with
    | error e g =>
      rw [revalidate_of_error hv howner]
      exact ⟨[], .of_same rfl rfl⟩
    | ok member g =>
      rw [revalidate_of_ok hv howner]
      obtain ⟨changes, h⟩ :=
        exists_tellsStates_recordState { s with graph := g } member (validator g member)
      exact ⟨changes, h.bus, h.length_le, h.judgment, h.mem_iff⟩

/-- Only the state of the member around the subject is recorded. -/
theorem owner_of_states_revalidate (hg : Managed s.graph)
    (h : (s.revalidate subject).states[x]? ≠ s.states[x]?) : s.validator ≠ none ∧
      Graph.owningMember subject (s.revalidate subject).graph =
        .ok x (s.revalidate subject).graph := by
  cases hv : s.validator with
  | none => exact absurd (by rw [revalidate_of_none hv]) h
  | some validator =>
    refine ⟨nofun, ?_⟩
    cases howner : Graph.owningMember subject s.graph with
    | error e g => exact absurd (by rw [revalidate_of_error hv howner]) h
    | ok member g =>
      rw [revalidate_of_ok hv howner] at h ⊢
      rw [states_recordState] at h
      obtain rfl : x = member := by
        by_contra hx
        exact h (if_neg hx)
      rw [recordState_graph]
      exact Graph.owningMember_again hg howner

/-- What a judgment of the member around a subject comes to: its top node has no facade, or what the
validator says of its facade is recorded. -/
def Answered (s : Session) (validator : Validator) (subject : FacadeId) : Prop :=
  ∃ top n, s.graph.owningNode subject = .ok top ∧ s.graph.model.node? top = some n ∧
    (Facade.Kind.ofNode? n.kind = none ∨
      ∃ member, Graph.owningMember subject s.graph = .ok member s.graph ∧
        s.validation member = validator s.graph member)

theorem answered_revalidate {validator : Validator} {node : NodeId} (hg : Managed s.graph)
    (hv : s.validator = some validator) (hnode : s.graph.nodeOf subject = .ok node) :
    (s.revalidate subject).Answered validator subject := by
  obtain ⟨e, he, rfl⟩ := Graph.nodeOf_eq_ok_iff.mp hnode
  obtain ⟨n, hn, -⟩ := Model.facadeKind?_eq_some_iff.mp (hg.facades.known he)
  obtain ⟨top, t, hmember, ht, -, -⟩ := hg.forest.exists_memberOf hn
  have howning : s.graph.owningNode subject = .ok top := by
    rw [Graph.owningNode_of_entry he, hmember]
    rfl
  have hev := revalidate_evolves hg subject
  refine ⟨top, t, Graph.owningNode_of_isRegister hev howning, by rw [hev.model_eq, ht], ?_⟩
  have hask : Graph.owningMember subject s.graph = Graph.facadeFor top s.graph :=
    bind_ok (Graph.ask_of_ok howning)
  cases hk : Facade.Kind.ofNode? t.kind with
  | none => exact .inl rfl
  | some kind =>
    obtain ⟨member, graph, hfacade, -, -⟩ :=
      Graph.facadeFor_eq hg ((Model.facadeKind?_of_node? ht).trans hk)
    have howner := hask.trans hfacade
    rw [revalidate_of_ok hv howner, recordState_graph]
    exact .inr ⟨member, Graph.owningMember_again hg howner, validation_recordState ..⟩

/-! ### Runs -/

/-- What becomes of the recorded states in a run that is performed. -/
structure Judges (s : Session) (subject : FacadeId) (s' : Session) : Prop where
  /-- The event of the action comes first, and is no judgment. -/
  posted : ∃ announced changes, announced.kind ≠ .validationChange ∧
    s'.bus = s.bus.postAll (announced :: changes) ∧ changes.length ≤ 1 ∧
    (∀ event ∈ changes, ∃ x, event = s'.judgmentOf x) ∧
    ∀ x, s'.judgmentOf x ∈ changes ↔
      s'.validation x ≠ s.validation x ∨ s.states[x]? = none ∧ s'.states[x]? = some .unknown
  answered : ∀ validator, s.validator = some validator → s'.Answered validator subject
  others : ∀ x, s'.states[x]? ≠ s.states[x]? →
    s.validator ≠ none ∧ Graph.owningMember subject s'.graph = .ok x s'.graph

theorem judges_of_run (hg : Managed s.graph) (hrun : run action subject param s = .ok o s') :
    s.Judges subject s' := by
  have h := (check_eq_ok_iff_run hg).mpr ⟨o, s', hrun⟩
  obtain ⟨manager, -, hcheck⟩ := check_eq_ok_iff.mp h
  obtain ⟨node, hnode, effect, g, hperform, hmakes, -⟩ :=
    Request.performed_of_precondition hg (Manager.check_eq_ok_iff.mp hcheck).2
  let event := Event.change effect.event subject effect.target effect.detail
  let posted := { s with graph := g }.post event
  have hg' : Managed posted.graph := hmakes.managed hg
  obtain ⟨changes, hchanges⟩ := exists_tellsStates_revalidate posted subject
  obtain ⟨rfl, rfl⟩ := EStateM.Result.ok.inj ((run_of_performed h hperform).symm.trans hrun)
  exact {
    posted := by
      refine ⟨event, changes, ?_, hchanges.bus, hchanges.length_le, hchanges.judgment,
        hchanges.mem_iff⟩
      show effect.event ≠ .validationChange
      rw [(Request.effect_of_perform hperform).1]
      exact Action.eventKind_ne_validationChange _
    answered := by
      intro validator hv
      obtain ⟨e, _, he, rfl, -⟩ := Graph.attachedNode_eq_ok_iff.mp hnode
      exact answered_revalidate hg' hv (Graph.nodeOf_of_entry (hmakes.entry?_eq he))
    others := by
      intro x hx
      have howner := owner_of_states_revalidate (s := posted) hg' hx
      exact howner }

/-- In a session over any model that was built or loaded, after any history and with any validators,
a run that is refused changes nothing, and a run that is performed has the member around its subject
judged. -/
theorem runs_record_judgments {m : Model} (h : Graph.Source m) (v : Versioning) :
    ∃ g, Graph.ofModel m v = .ok g ∧
      ∀ (calls : List Call) (action : Action) (subject : FacadeId) (param : Option Param),
        let s := (ofGraph g).after calls
        (∀ e s', run action subject param s = .error e s' → s' = s) ∧
          ∀ o s', run action subject param s = .ok o s' → s.Judges subject s' := by
  obtain ⟨g, hgraph, hg⟩ := exists_managed h.forest v
  refine ⟨g, hgraph, fun calls action subject param => ⟨fun e s' hrun => ?_, fun o s' hrun => ?_⟩⟩
  · exact ((run_eq_error_iff (hg calls)).mp hrun).2
  · exact judges_of_run (hg calls) hrun

end Session

namespace Snapshot

open Session (Call)

/-- The object is opened and a validator is set. -/
def singleOrderJudgedBy (validator : Validator) : List Call :=
  singleOrderOpened ++ [.setValidator (some validator)]

/-- The object is described, and found valid. -/
theorem judges_singleOrder :
    ∃ loaded g o s', singleOrder.load = .ok loaded ∧
      Graph.ofModel loaded.model (.chain none) = .ok g ∧
      let s := (Session.ofGraph g).after (singleOrderJudgedBy .untypedProperties)
      Session.run .setDescription ⟨0⟩ (some (.text "A purchase")) s = .ok o s' ∧
        s.validation ⟨0⟩ = .unknown ∧ s'.validation ⟨0⟩ = .valid ∧ s.Judges ⟨0⟩ s' := by
  obtain ⟨loaded, g, o, s', hload, hgraph, hrun, hp⟩ := exists_run singleOrder (.chain none)
    (singleOrderJudgedBy .untypedProperties) .setDescription ⟨0⟩ (some (.text "A purchase"))
    (p := fun s _ s' => decide (s.validation ⟨0⟩ = .unknown ∧ s'.validation ⟨0⟩ = .valid))
    (by decide +kernel)
  obtain ⟨hbefore, hafter⟩ := of_decide_eq_true hp
  obtain ⟨_, hgraph', hjudges⟩ := Session.runs_record_judgments (.loaded hload) (.chain none)
  obtain rfl := Except.ok.inj (hgraph.symm.trans hgraph')
  exact ⟨loaded, g, o, s', hload, hgraph, hrun, hbefore, hafter, (hjudges _ _ _ _).2 o s' hrun⟩

/-- A validator that knows nothing has an event follow, although the state of the object is unknown
as it was before. -/
theorem unknown_announced_as_change :
    ∃ loaded g o s', singleOrder.load = .ok loaded ∧
      Graph.ofModel loaded.model (.chain none) = .ok g ∧
      let s := (Session.ofGraph g).after (singleOrderJudgedBy fun _ _ => .unknown)
      Session.run .setDescription ⟨0⟩ (some (.text "A purchase")) s = .ok o s' ∧
        s'.validation ⟨0⟩ = s.validation ⟨0⟩ ∧
        s'.bus.journal.toList.map (·.event) =
          [.change .documentationChange ⟨0⟩ none .nothing,
            .change .validationChange ⟨0⟩ none (.validation false 0)] := by
  obtain ⟨loaded, g, o, s', hload, hgraph, hrun, hp⟩ := exists_run singleOrder (.chain none)
    (singleOrderJudgedBy fun _ _ => .unknown) .setDescription ⟨0⟩ (some (.text "A purchase"))
    (p := fun s _ s' => decide (s'.validation ⟨0⟩ = s.validation ⟨0⟩ ∧
      s'.bus.journal.toList.map (·.event) =
        [.change .documentationChange ⟨0⟩ none .nothing,
          .change .validationChange ⟨0⟩ none (.validation false 0)])) (by decide +kernel)
  obtain ⟨hsame, hevents⟩ := of_decide_eq_true hp
  exact ⟨loaded, g, o, s', hload, hgraph, hrun, hsame, hevents⟩

end Snapshot

end SchemaEditor
