import SchemaEditor.Proofs.Action.Scope
import SchemaEditor.Proofs.Session.Loaded
import SchemaEditor.Proofs.Versioning

/-!
# Members that are carried forward

In a session that edits by running actions, a member that is carried forward into a minor version
is preserved: the manager of its library lets no structural change through whose subject belongs to
it, and changes elsewhere spare it. The member also stays carried forward, because the member that
it comes from lies in a read-only library and is preserved for the same reason.
-/

namespace SchemaEditor.Session

open SchemaEditor.Graph (Evolves Managed)
open Model (Extends Under)
open Outcome (bind_eq_ok_iff)

variable {s : Session} {action : Action} {subject : FacadeId} {param : Option Param}
variable {node top origin : NodeId} {v : Versioning} {m : Model} {c : Call}

/-! ### Policy -/

/-- No structural change whose subject belongs to a guarded member passes the check. -/
theorem tolerates_of_check (hg : Managed s.graph)
    (hguard : s.graph.versioning.Guards s.graph.model top)
    (hnode : s.graph.attachedNode subject = .ok node)
    (h : s.check action subject param = .ok ⟨⟩) :
    (⟨action, subject, param⟩ : Request).Tolerates s.graph node top := by
  intro hu hstructural
  replace hstructural : action.changeClass param = .structural := hstructural
  obtain ⟨manager, hmanager, hcheck⟩ := check_eq_ok_iff.mp h
  have hpolicy := (Manager.check_eq_ok_iff.mp hcheck).1
  obtain ⟨e, n, he, rfl, hn, -⟩ := Graph.attachedNode_eq_ok_iff.mp hnode
  obtain ⟨t, ht, hroot, hguard⟩ := hguard
  have heditability := Graph.editability_of_entry he hn
  rw [hg.forest.library_of_under hu hn ht] at heditability
  have hnew := Graph.isNewToChain_of_entry he
    ((hg.forest.memberOf_eq_ok_iff hn).mpr ⟨⟨t, ht, hroot⟩, hu⟩)
  rw [managerFor, heditability] at hmanager
  obtain rfl := Except.ok.inj hmanager
  obtain hclosed | ⟨hminor, hcarried⟩ := hguard
  · rw [hclosed] at hpolicy
    cases hpolicy
  · rw [hminor] at hpolicy heditability
    rw [hcarried] at hnew
    simp [Manager.checkPolicy, Manager.ofEditability, heditability, hnew, Manager.consult,
      Manager.checkCarried, hstructural, Policy.permits] at hpolicy

/-! ### Calls -/

/-- Whether a call edits the graph by running an action, if at all. -/
def Call.Mediated : Call → Prop
  | .graph call => call.IsLookup
  | _ => True

/-- The nodes that a call deletes. -/
def Call.Deletes (s : Session) (c : Call) (p : NodeId) : Prop :=
  match c with
  | .run action subject param =>
    ∃ o s', Session.run action subject param s = .ok o s' ∧ p ∈ o.detached
  | _ => False

/-- A mediated call leaves the libraries as they are. -/
theorem Call.libraries_eq (hg : Managed s.graph) (hc : c.Mediated) :
    (c.apply s).graph.model.libraries = s.graph.model.libraries := by
  cases c with
  | run action subject param =>
    simp only [Call.apply]
    cases hcheck : s.check action subject param with
    | error e => rw [run_of_refused hcheck]
    | ok =>
      obtain ⟨node, o, s', g, hnode, hrun, hmakes, hregister, -⟩ := run_of_checked hg hcheck
      obtain ⟨manager, -, hmanager⟩ := check_eq_ok_iff.mp hcheck
      obtain ⟨-, hreq⟩ :=
        Request.attached_of_precondition (Manager.check_eq_ok_iff.mp hmanager).2
      rw [hrun]
      simp only [hregister.model_eq]
      exact Request.libraries_of_makes hg hnode hreq hmakes
  | graph call =>
    exact congrArg _ (Graph.Call.model_of_isLookup hg hc)
  | setBus | setAdditions | setValidator => rfl

/-- A mediated call preserves every guarded member and leaves the libraries as they are. -/
theorem Call.preserves (hg : Managed s.graph) (hc : c.Mediated)
    (hguard : s.graph.versioning.Guards s.graph.model top) :
    s.graph.model.Preserves top (c.Deletes s) (c.apply s).graph.model ∧
      (c.apply s).graph.model.libraries = s.graph.model.libraries := by
  refine ⟨?_, c.libraries_eq hg hc⟩
  cases c with
  | run action subject param =>
    simp only [Call.apply]
    cases hcheck : s.check action subject param with
    | error e =>
      rw [run_of_refused hcheck]
      exact .refl _ _
    | ok =>
      obtain ⟨node, o, s', g, hnode, hrun, hmakes, hregister, hremoved⟩ := run_of_checked hg hcheck
      have htolerates := tolerates_of_check hg hguard hnode hcheck
      obtain ⟨t, ht, hroot, -⟩ := hguard
      have hspares := Request.spares_of_makes hg hnode ht hroot htolerates hmakes
      rw [hrun]
      simp only [hregister.model_eq]
      refine (hspares.preserves hg.forest ht hroot).mono fun p hp => ?_
      exact ⟨o, s', hrun, hremoved ▸ hp⟩
  | graph call =>
    show Model.Preserves _ _ _ (call.apply s.graph).model
    rw [Graph.Call.model_of_isLookup hg hc]
    exact .refl _ _
  | setBus | setAdditions | setValidator => exact .refl _ _

/-! ### Sequences of calls -/

/-- A session has preserved a member of a model, and the origin of that member. -/
structure Protects (v : Versioning) (m : Model) (top origin : NodeId) (s : Session) : Prop where
  sound : Sound s
  versioning : s.graph.versioning = v
  extends_ : Extends m s.graph.model
  libraries : s.graph.model.libraries = m.libraries
  member : m.Preserves top (fun _ => True) s.graph.model
  origin : m.Preserves origin (fun _ => True) s.graph.model

namespace Protects

theorem start (h : Sound s) (top origin : NodeId) :
    Protects s.graph.versioning s.graph.model top origin s :=
  ⟨h, rfl, .refl _, rfl, .refl _ _, .refl _ _⟩

theorem guards (h : Protects v m top origin s) (hv : v.Sustains m top origin) :
    s.graph.versioning.Guards s.graph.model top ∧
      s.graph.versioning.Guards s.graph.model origin := by
  obtain ⟨hcarries, hguards⟩ := hv _ h.extends_ h.libraries h.member h.origin
  rw [h.versioning]
  exact ⟨hcarries.guards, hguards⟩

theorem apply (h : Protects v m top origin s) (hv : v.Sustains m top origin) (hc : c.Mediated) :
    Protects v m top origin (c.apply s) := by
  obtain ⟨hmember, horigin⟩ := h.guards hv
  have hev := c.evolves h.sound.managed
  obtain ⟨htop, hlibs⟩ := c.preserves h.sound.managed hc hmember
  obtain ⟨horig, -⟩ := c.preserves h.sound.managed hc horigin
  have hf := h.sound.managed.forest
  exact {
    sound := h.sound.of_evolves hev
    versioning := hev.versioning_eq.trans h.versioning
    extends_ := h.extends_.trans hev.extends_
    libraries := hlibs.trans h.libraries
    member := h.member.trans (htop.mono fun _ _ => trivial) h.extends_ hev.extends_ hf
    origin := h.origin.trans (horig.mono fun _ _ => trivial) h.extends_ hev.extends_ hf }

theorem after (h : Protects v m top origin s) (hv : v.Sustains m top origin) {calls : List Call}
    (hcalls : ∀ c ∈ calls, c.Mediated) : Protects v m top origin (s.after calls) := by
  induction calls generalizing s with
  | nil => exact h
  | cons c calls ih =>
    exact ih (h.apply hv (hcalls c List.mem_cons_self))
      fun c hc => hcalls c (List.mem_cons_of_mem _ hc)

end Protects

/-- A member that is carried forward is preserved as long as only actions are run: its references
are cleared only in a run that deletes the node they lead to. -/
theorem preserves_carried {snapshot : Snapshot} {loaded : Snapshot.Loaded} {g : Graph}
    (hload : snapshot.load = .ok loaded) (hv : v.Standard)
    (hgraph : Graph.ofModel loaded.model v = .ok g) (history : List Call)
    (hcarries : v.Carries ((ofGraph g).after history).graph.model top) (calls : List Call)
    (hcalls : ∀ c ∈ calls, c.Mediated) :
    let start := (ofGraph g).after history
    let s := start.after calls
    start.graph.model.Preserves top (fun _ => True) s.graph.model ∧
      ∀ c : Call, c.Mediated →
        s.graph.model.Preserves top (c.Deletes s) (c.apply s).graph.model := by
  intro start s
  obtain ⟨g', hg', -, hversioning, hsound⟩ := exists_sound_of_load hload v
  obtain rfl := Except.ok.inj (hg'.symm.trans hgraph)
  have hstart : Sound start := hsound.after history
  have hstartv : start.graph.versioning = v :=
    (evolves_after hsound.managed history).versioning_eq.trans hversioning
  obtain ⟨origin, hsustains⟩ := Versioning.exists_origin hv hstart.shelved hcarries
  have hafter := (Protects.start hstart top origin).after (hstartv ▸ hsustains) hcalls
  refine ⟨hafter.member, fun c hc => ?_⟩
  exact (c.preserves hafter.sound.managed hc (hafter.guards (hstartv ▸ hsustains)).1).1

end SchemaEditor.Session

namespace SchemaEditor.Snapshot

open Session (Call)

/-- The object of the second version is carried forward from the first one. -/
theorem carries_twoVersions :
    ∃ loaded, twoVersions.load = .ok loaded ∧ (Versioning.chain none).Carries loaded.model ⟨4⟩ := by
  obtain ⟨loaded, hload, hp⟩ := exists_twoVersions (p := fun loaded =>
    ((loaded.model.node? ⟨4⟩).any fun n => n.owner = none ∧ n.library = ⟨1⟩ ∧ n.name = "Order") ∧
    ((loaded.model.node? ⟨0⟩).any fun w => w.library = ⟨0⟩ ∧ w.attached ∧ w.name = "Order") ∧
    ((loaded.model.library? ⟨0⟩).any fun e => e.version = ⟨1, 0, 0⟩ ∧ ⟨0⟩ ∈ e.members) ∧
    (loaded.model.library? ⟨1⟩).any fun l => l.builtin = false ∧ l.status = .draft ∧
      l.managed = false ∧ l.version = ⟨1, 1, 0⟩ ∧
      loaded.model.versions l = [(⟨0⟩, ⟨1, 0, 0⟩), (⟨1⟩, ⟨1, 1, 0⟩)]) (by decide +kernel)
  simp only [decide_eq_true_eq, Option.any_eq_true] at hp
  obtain ⟨⟨n, hn, ho, hnl, hname⟩, ⟨w, hw, hwl, ha, hwname⟩, ⟨e, he, hev, hlisted⟩, hp⟩ := hp
  obtain ⟨l, hl, hbuiltin, hstatus, hmanaged, hv, hversions⟩ := hp
  have hchain : loaded.model.chain ⟨1⟩ = [⟨0⟩, ⟨1⟩] := by
    rw [Model.chain_of_pairwise hl (by rw [hversions]; decide), hversions]
    rfl
  have horigin : Versioning.Origin loaded.model n l ⟨0⟩ w e := {
    node := hw
    library := hwl ▸ he
    listed := hlisted
    chain := by rw [hwl, hnl, hchain]; decide
    earlier := by rw [hev, hv]; decide
    attached := ha
    name := hwname.trans hname.symm }
  refine ⟨loaded, hload, n, hn, ho, ?_, horigin.newInChain_eq_false hn (hnl ▸ hl)⟩
  show Versioning.chainEditability none loaded.model n.library = .minorOnly
  rw [hnl, Versioning.chainEditability, hl, hchain]
  simp [hbuiltin, hstatus, hmanaged, hv, Versioning.lockedOut, Version.isMinor]

/-- A session that renames the object, in vain, and gives it an alias. -/
theorem preserves_twoVersions :
    ∃ loaded g, twoVersions.load = .ok loaded ∧
      Graph.ofModel loaded.model (.chain none) = .ok g ∧
      (Versioning.chain none).Carries g.model ⟨4⟩ ∧
      let calls : List Call := [.graph (.members ⟨1⟩), .run .setName ⟨0⟩ (some (.text "Invoice")),
        .run .addAlias ⟨0⟩ (some (.text "Sale"))]
      g.model.Preserves ⟨4⟩ (fun _ => True) ((Session.ofGraph g).after calls).graph.model := by
  obtain ⟨loaded, hload, hcarries⟩ := carries_twoVersions
  obtain ⟨g, hgraph, hmodel, -⟩ := Session.exists_sound_of_load hload (.chain none)
  rw [← hmodel] at hcarries
  refine ⟨loaded, g, hload, hgraph, hcarries, ?_⟩
  intro calls
  exact (Session.preserves_carried hload (.inl ⟨none, rfl⟩) hgraph [] hcarries calls
    (by simp [calls, Call.Mediated, Graph.Call.IsLookup])).1

end SchemaEditor.Snapshot
