import SchemaEditor.Proofs.Action.Effect
import SchemaEditor.Proofs.Event.Call
import SchemaEditor.Proofs.Graph.Extension
import SchemaEditor.Proofs.Session.Loaded

/-!
# What runs publish

A run that is performed posts one event, which tells what its action did, and after it at most one
more, if the judgment of the member around the subject has changed. Judging only hands out facades,
so that what the effect says of the graph of the action is still true of the session afterwards. A
run that is refused posts nothing.
-/

namespace SchemaEditor

namespace Graph

open Outcome (run_bind_eq_ok_iff)

variable {g g' : Graph} {id member : FacadeId} {node : NodeId} {kind : Facade.Kind}

/-! ### Owning members -/

/-- The facade of a node is handed out again. -/
theorem facadeFor_of_entry (hg : Managed g) (he : g.facades.entry? id = some ⟨node, kind⟩) :
    facadeFor node g = .ok id g := by
  obtain ⟨n, hn, hkind⟩ := Model.facadeKind?_eq_some_iff.mp (hg.facades.known he)
  have hget : g.facades.getOrCreate node (some kind) = some (id, g.facades) := by
    simp only [Facade.Registry.getOrCreate, hg.facades.get?_of_entry he]
  have hrun : facade? node g = .ok (some id) g := by
    simp only [facade?, Model.node_of_node? hn, hkind, hget]
  rw [facadeFor, Outcome.bind_ok hrun]
  rfl

/-- A facade that was handed out is that of the node. -/
theorem exists_entry_of_facadeFor (hg : Managed g) (h : facadeFor node g = .ok id g') :
    ∃ kind, g'.facades.entry? id = some ⟨node, kind⟩ := by
  cases hn : g.model.node? node with
  | none =>
    rw [facadeFor, Outcome.bind_error (by simp only [facade?, Model.node_of_none hn]; rfl)] at h
    cases h
  | some n =>
    cases hk : Facade.Kind.ofNode? n.kind with
    | none =>
      rw [facadeFor, Outcome.bind_ok (facade?_of_kindless hg hn hk)] at h
      cases h
    | some kind =>
      obtain ⟨_, _, hrun, -, he⟩ := facadeFor_eq hg ((Model.facadeKind?_of_node? hn).trans hk)
      obtain ⟨rfl, rfl⟩ := EStateM.Result.ok.inj (hrun.symm.trans h)
      exact ⟨kind, he⟩

theorem owningNode_of_entry {e : Facade.Entry} (he : g.facades.entry? id = some e) :
    g.owningNode id = ofModelResult (g.model.memberOf e.node) := by
  rw [owningNode, nodeOf_of_entry he, Outcome.ok_bind]

theorem owningNode_of_isRegister (hev : Evolves IsRegister g g')
    (h : g.owningNode id = .ok node) : g'.owningNode id = .ok node := by
  obtain ⟨_, hof, -⟩ := Outcome.bind_eq_ok_iff.mp h
  obtain ⟨e, he, -⟩ := nodeOf_eq_ok_iff.mp hof
  rw [owningNode_of_entry he] at h
  rw [owningNode_of_entry (hev.entry?_eq he), hev.model_eq, h]

/-- The owning member is the same when it is asked for once more. -/
theorem owningMember_again (hg : Managed g) (h : owningMember id g = .ok member g') :
    owningMember id g' = .ok member g' := by
  have hev : Evolves IsRegister g g' := by
    have hleads := owningMember_leads id g hg
    rwa [left, h] at hleads
  obtain ⟨node, _, hask, hwrap⟩ := run_bind_eq_ok_iff.mp h
  obtain ⟨hnode, rfl⟩ := Graph.ask_eq_ok_iff.mp hask
  obtain ⟨kind, he⟩ := exists_entry_of_facadeFor hg hwrap
  rw [owningMember, Outcome.bind_ok (ask_of_ok (owningNode_of_isRegister hev hnode)),
    facadeFor_of_entry (hev.managed hg) he]

end Graph

namespace Session

open SchemaEditor.Graph (Evolves IsRegister Managed)

variable {s s' : Session} {action : Action} {subject : FacadeId} {param : Option Param}
variable {r : Request} {o : Outcome} {effect : Effect} {g : Graph}

/-! ### Judging -/

/-- Judging a member posts nothing, or that its state has changed. -/
theorem revalidate_cases (hg : Managed s.graph) (subject : FacadeId) :
    ∃ changes, (s.revalidate subject).bus = s.bus.postAll changes ∧
      (changes = [] ∨ ∃ member valid findings,
        changes = [.change .validationChange member none (.validation valid findings)] ∧
        Graph.owningMember subject (s.revalidate subject).graph =
          .ok member (s.revalidate subject).graph) := by
  cases hv : s.validator with
  | none =>
    rw [revalidate_of_none hv]
    exact ⟨[], rfl, .inl rfl⟩
  | some validator =>
    cases howner : Graph.owningMember subject s.graph with
    | error e g =>
      rw [revalidate_of_error hv howner]
      exact ⟨[], rfl, .inl rfl⟩
    | ok member g =>
      rw [revalidate_of_ok hv howner, recordState_graph]
      unfold recordState
      split
      · exact ⟨[], rfl, .inl rfl⟩
      · exact ⟨_, rfl, .inr ⟨member, _, _, rfl, Graph.owningMember_again hg howner⟩⟩

/-! ### Runs -/

/-- What a run that was performed has posted, and what it gives back. -/
structure Publishes (s : Session) (r : Request) (o : Outcome) (s' : Session) : Prop where
  posted : ∃ before after changes,
    s.graph.name r.subject = .ok before ∧ s'.graph.name r.subject = .ok after ∧
      s'.bus = s.bus.postAll (r.announcement o.created before after :: changes) ∧
      (changes = [] ∨ ∃ member valid findings,
        changes = [.change .validationChange member none (.validation valid findings)] ∧
        Graph.owningMember r.subject s'.graph = .ok member s'.graph)
  locked : s'.bus.locked = s.bus.locked
  history : s'.bus.history = s.bus.history
  /-- A facade is created exactly if the arena grows, and it is that of the one new node. -/
  created : o.created = none ∧ s'.graph.model.nodes.size = s.graph.model.nodes.size ∨
    ∃ facade top, o.created = some facade ∧
      s'.graph.model.nodes.size = s.graph.model.nodes.size + 1 ∧
      s'.graph.nodeOf facade = .ok s.graph.model.nextId ∧
      s'.graph.owningNode facade = .ok top ∧ s'.graph.owningNode r.subject = .ok top ∧
      Graph.owningMember facade s'.graph = Graph.owningMember r.subject s'.graph
  detached : o.detached.Nodup ∧
    ∀ x, x ∈ o.detached ↔ s.graph.model.IsAttached x ∧ ¬ s'.graph.model.IsAttached x
  /-- What is told as assigned is what the reference of the subject leads to. -/
  assigned : ∀ slot, r.action.assigns? = some slot → ∃ node provider p,
    s.graph.nodeOf r.subject = .ok node ∧ r.provider = .ok provider ∧
      s.graph.nodeOf provider = .ok p ∧ s'.graph.model.reference? ⟨node, slot⟩ = some p

theorem run_of_performed (h : s.check action subject param = .ok ⟨⟩)
    (hperform : (⟨action, subject, param⟩ : Request).perform s.graph = .ok effect g) :
    run action subject param s = .ok ⟨action, subject, effect.created, effect.detached⟩
      (({ s with graph := g }.post
        (.change effect.event subject effect.target effect.detail)).revalidate subject) := by
  obtain ⟨manager, hmanager, hcheck⟩ := check_eq_ok_iff.mp h
  simp only [run, hmanager, Manager.run_of_checked hcheck, hperform]

/-- A new facade belongs to the member around the subject. -/
theorem owner_of_adds {node : NodeId} {g' : Graph} {facade : FacadeId} {e : Facade.Entry}
    {kind : Facade.Kind} (hg : Managed g') (he : g'.facades.entry? subject = some e)
    (hfacade : g'.facades.entry? facade = some ⟨node, kind⟩)
    (hu : Model.Under g'.model e.node node) :
    ∃ top, g'.owningNode facade = .ok top ∧ g'.owningNode subject = .ok top ∧
      Graph.owningMember facade g' = Graph.owningMember subject g' := by
  obtain ⟨n, hn, -⟩ := Model.facadeKind?_eq_some_iff.mp (hg.facades.known hfacade)
  obtain ⟨top, _, hmember, -⟩ := hg.forest.exists_memberOf hn
  have hfacade := Graph.owningNode_of_entry hfacade
  have hsubject := Graph.owningNode_of_entry he
  rw [← hg.forest.memberOf_eq_of_under hu hn] at hsubject
  rw [hmember] at hfacade hsubject
  refine ⟨top, hfacade, hsubject, ?_⟩
  rw [Graph.owningMember, Graph.owningMember, Outcome.bind_ok (Graph.ask_of_ok hfacade),
    Outcome.bind_ok (Graph.ask_of_ok hsubject)]

theorem name_of_isRegister {g g' : Graph} (hev : Evolves IsRegister g g') {name : String}
    (h : g.name subject = .ok name) : g'.name subject = .ok name := by
  obtain ⟨node, hnode, hname⟩ := Outcome.bind_eq_ok_iff.mp h
  obtain ⟨e, he, rfl⟩ := Graph.nodeOf_eq_ok_iff.mp hnode
  rw [Graph.name, Graph.nodeOf_of_entry (hev.entry?_eq he), Outcome.ok_bind,
    hev.model_eq, hname]

/-- A new facade is still that of the new node, and of the same member as the subject, after facades
were handed out. -/
theorem created_of_adds {g g' g'' : Graph} {facade : FacadeId} {e : Facade.Entry}
    (hg : Managed g') (hjudged : Evolves IsRegister g' g'')
    (he : g'.facades.entry? subject = some e) (hadds : Graph.Adds g g' e.node facade) :
    ∃ top, g''.model.nodes.size = g.model.nodes.size + 1 ∧
      g''.nodeOf facade = .ok g.model.nextId ∧ g''.owningNode facade = .ok top ∧
      g''.owningNode subject = .ok top ∧
      Graph.owningMember facade g'' = Graph.owningMember subject g'' := by
  obtain ⟨kind, hfacade⟩ := hadds.entry
  replace hfacade := hjudged.entry?_eq hfacade
  have hunder : Model.Under g''.model e.node g.model.nextId := hjudged.model_eq ▸ hadds.under
  obtain ⟨top, howner⟩ := owner_of_adds (hjudged.managed hg) (hjudged.entry?_eq he) hfacade hunder
  exact ⟨top, hjudged.model_eq ▸ hadds.size_eq, Graph.nodeOf_of_entry hfacade, howner⟩

/-- A run that is performed publishes what its action did. -/
theorem publishes_of_run (hg : Managed s.graph) (hrun : run action subject param s = .ok o s') :
    s.Publishes ⟨action, subject, param⟩ o s' := by
  have h := (check_eq_ok_iff_run hg).mpr ⟨o, s', hrun⟩
  obtain ⟨manager, -, hcheck⟩ := check_eq_ok_iff.mp h
  obtain ⟨node, effect, g, hnode, hperform, hmakes, htells⟩ :=
    Request.tells_of_precondition hg (Manager.check_eq_ok_iff.mp hcheck).2
  let event := Event.change effect.event subject effect.target effect.detail
  let posted := { s with graph := g }.post event
  have hg' : Managed posted.graph := hmakes.managed hg
  have hjudged := revalidate_evolves hg' subject
  have hmodel := hjudged.model_eq
  obtain ⟨changes, hbus, hchanges⟩ := revalidate_cases hg' subject
  obtain ⟨before, after, hbefore, hafter, hannounced⟩ := htells.announced
  replace hbus : (posted.revalidate subject).bus = s.bus.postAll (event :: changes) := hbus
  obtain ⟨e, _, he, rfl, -⟩ := Graph.attachedNode_eq_ok_iff.mp hnode
  obtain ⟨rfl, rfl⟩ := EStateM.Result.ok.inj ((run_of_performed h hperform).symm.trans hrun)
  exact {
    posted := by
      refine ⟨before, after, changes, hbefore, name_of_isRegister hjudged hafter, ?_, hchanges⟩
      rw [← hannounced]
      exact hbus
    locked := by
      rw [hbus]
      exact (Bus.postAll_frame s.bus _).2.2
    history := by
      rw [hbus]
      refine Bus.history_postAll (List.forall_mem_cons.mpr ⟨?_, ?_⟩)
      · show effect.event ≠ .navigation
        rw [(Request.effect_of_perform hperform).1]
        exact Action.eventKind_ne_navigation _
      · obtain rfl | ⟨_, _, _, rfl, -⟩ := hchanges
        · simp
        · simp [Event.change]
    created := by
      obtain ⟨hnone, hsize⟩ | ⟨facade, hsome, hadds⟩ := htells.created
      · rw [hmodel]
        exact .inl ⟨hnone, hsize⟩
      · obtain ⟨top, hcreated⟩ := created_of_adds hg' hjudged (hmakes.entry?_eq he) hadds
        exact .inr ⟨facade, top, hsome, hcreated⟩
    detached := by
      rw [hmodel]
      exact htells.detached
    assigned := by
      intro slot hslot
      obtain ⟨provider, p, hprovider, hp, href⟩ := htells.assigned slot hslot
      refine ⟨e.node, provider, p, Graph.nodeOf_of_entry he, hprovider, hp, ?_⟩
      rw [hmodel]
      exact href }

/-- In a session over any model that was built or loaded, after any history, with any subscriptions
and any validator: a run that is refused changes nothing, and a run that is performed publishes
exactly what it did. -/
theorem run_publishes_effect {m : Model} (h : Graph.Source m) (v : Versioning) :
    ∃ g, Graph.ofModel m v = .ok g ∧
      ∀ (calls : List Call) (action : Action) (subject : FacadeId) (param : Option Param),
        let s := (ofGraph g).after calls
        (∀ e s', run action subject param s = .error e s' → s' = s) ∧
          ∀ o s', run action subject param s = .ok o s' →
            s.Publishes ⟨action, subject, param⟩ o s' := by
  obtain ⟨g, hgraph, hg⟩ := exists_managed h.forest v
  refine ⟨g, hgraph, fun calls action subject param => ⟨fun e s' hrun => ?_, fun o s' hrun => ?_⟩⟩
  · exact ((run_eq_error_iff (hg calls)).mp hrun).2
  · exact publishes_of_run (hg calls) hrun

end Session

namespace Snapshot

open Session (Call)

/-- The object of the second version is given an alias while a validator is set. -/
theorem publishes_twoVersions :
    ∃ loaded g o s', twoVersions.load = .ok loaded ∧
      Graph.ofModel loaded.model (.fixed .editable [] []) = .ok g ∧
      let calls : List Call := [.graph (.members ⟨1⟩), .setValidator (some .untypedProperties)]
      let s := (Session.ofGraph g).after calls
      Session.run .addAlias ⟨0⟩ (some (.text "sale")) s = .ok o s' ∧
        s'.bus.journal.toList.map (·.event) =
          [.change .childAdded ⟨0⟩ (some ⟨1⟩) .nothing,
            .change .validationChange ⟨0⟩ none (.validation true 0)] ∧
        s.Publishes ⟨.addAlias, ⟨0⟩, some (.text "sale")⟩ o s' := by
  let calls : List Call := [.graph (.members ⟨1⟩), .setValidator (some .untypedProperties)]
  let call : Call := .run .addAlias ⟨0⟩ (some (.text "sale"))
  obtain ⟨loaded, g, hload, hgraph, hp⟩ := exists_graph_twoVersions
    (v := .fixed .editable [] []) (p := fun g =>
      (call.apply ((Session.ofGraph g).after calls)).bus.journal.toList.map (·.event) =
        [.change .childAdded ⟨0⟩ (some ⟨1⟩) .nothing,
          .change .validationChange ⟨0⟩ none (.validation true 0)]) (by decide +kernel)
  have hjournal := of_decide_eq_true hp
  obtain ⟨_, hgraph', hpublishes⟩ :=
    Session.run_publishes_effect (.loaded hload) (.fixed .editable [] [])
  obtain rfl := Except.ok.inj (hgraph.symm.trans hgraph')
  cases hrun : Session.run .addAlias ⟨0⟩ (some (.text "sale"))
      ((Session.ofGraph g).after calls) with
  | error e s' =>
    -- A run that is refused would have posted nothing.
    obtain rfl := (hpublishes calls _ _ _).1 e s' hrun
    simp only [call, Call.apply, hrun] at hjournal
    cases hjournal
  | ok o s' =>
    simp only [call, Call.apply, hrun] at hjournal
    exact ⟨loaded, g, o, s', hload, hgraph, hrun, hjournal,
      (hpublishes calls _ _ _).2 o s' hrun⟩

end Snapshot

end SchemaEditor
