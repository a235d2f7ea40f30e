import SchemaEditor.Proofs.Graph.Footprint
import SchemaEditor.Proofs.Session.CarriedForward

/-!
# What a session is permitted

A session that edits by running actions cannot raise its own permissions. How freely a library may
be edited depends on the libraries alone, which no action changes, so that every facade keeps its
manager. Whether a member is new to its chain depends on names: on its own and on those of the
members of earlier libraries. If it is not new, one of these has its name; both of them are guarded,
so that neither is renamed or deleted, and the member is still not new.
-/

namespace SchemaEditor.Session

open SchemaEditor.Graph (Evolves Managed)
open Versioning (Continues)

variable {start s : Session} {user : Option String} {top origin : NodeId} {n : Node} {c : Call}

/-! ### Settings -/

/-- Whether a call is mediated and leaves the settings as they are. -/
def Call.Unprivileged : Call → Prop
  | .setAdditions _ => False
  | c => c.Mediated

theorem Call.Unprivileged.mediated (h : c.Unprivileged) : c.Mediated := by
  cases c with
  | setAdditions => exact h.elim
  | _ => exact h

theorem Call.Unprivileged.additions_eq (h : c.Unprivileged) :
    (c.apply s).minorVersionAdditions = s.minorVersionAdditions := by
  cases c with
  | run => exact (Call.settings_of_run ..).1
  | setAdditions => exact h.elim
  | graph | setBus | setValidator => rfl

/-! ### Names -/

/-- A member continues another one after every mediated call, because both are guarded. -/
theorem Call.continues (hs : Sound s) (hv : s.graph.versioning = .chain user) (hc : c.Mediated)
    (h : Continues s.graph.model top origin) : Continues (c.apply s).graph.model top origin := by
  obtain ⟨htop, horigin⟩ := h.guards user
  rw [← hv] at htop horigin
  obtain ⟨hmember, hlibs⟩ := c.preserves hs.managed hc htop
  obtain ⟨hother, -⟩ := c.preserves hs.managed hc horigin
  have hext := (c.evolves hs.managed).extends_
  exact h.of_preserves hlibs hext hmember hother

/-! ### Sequences of calls -/

/-- A session has kept all that its permissions depend on since another session. -/
structure Confined (user : Option String) (start s : Session) : Prop where
  sound : Sound s
  versioning : s.graph.versioning = .chain user
  evolves : Evolves (fun _ _ => True) start.graph s.graph
  libraries : s.graph.model.libraries = start.graph.model.libraries
  additions : s.minorVersionAdditions = start.minorVersionAdditions
  continues : ∀ {top origin}, Continues start.graph.model top origin →
    Continues s.graph.model top origin

namespace Confined

theorem refl (hs : Sound s) (hv : s.graph.versioning = .chain user) : Confined user s s :=
  ⟨hs, hv, .refl, rfl, rfl, id⟩

theorem apply (h : Confined user start s) (hc : c.Unprivileged) :
    Confined user start (c.apply s) := by
  have hev := c.evolves h.sound.managed
  exact {
    sound := h.sound.of_evolves hev
    versioning := hev.versioning_eq.trans h.versioning
    evolves := h.evolves.trans hev
    libraries := (c.libraries_eq h.sound.managed hc.mediated).trans h.libraries
    additions := hc.additions_eq.trans h.additions
    continues := fun hcontinues =>
      c.continues h.sound h.versioning hc.mediated (h.continues hcontinues) }

theorem after (h : Confined user start s) {calls : List Call}
    (hcalls : ∀ c ∈ calls, c.Unprivileged) : Confined user start (s.after calls) := by
  induction calls generalizing s with
  | nil => exact h
  | cons c calls ih =>
    exact ih (h.apply (hcalls c List.mem_cons_self))
      fun c hc => hcalls c (List.mem_cons_of_mem _ hc)

/-- Every library is as editable as it was. -/
theorem editability_eq (h : Confined user start s) (hv : start.graph.versioning = .chain user)
    (lib : LibraryId) : s.graph.versioning.editability s.graph.model lib =
      start.graph.versioning.editability start.graph.model lib := by
  rw [h.versioning, hv]
  exact Versioning.chainEditability_of_libraries h.libraries lib

/-- Every facade has the manager that it had. -/
theorem managerFor_eq (h : Confined user start s) (hs : Managed start.graph)
    (hv : start.graph.versioning = .chain user) {f : FacadeId} {e : Facade.Entry}
    (he : start.graph.facades.entry? f = some e) :
    ∃ manager, start.managerFor f = .ok manager ∧ s.managerFor f = .ok manager := by
  obtain ⟨n, hn, -⟩ := Model.facadeKind?_eq_some_iff.mp (hs.facades.known he)
  obtain ⟨n', hn', -, -, hlib⟩ := h.evolves.extends_.same hn
  have heditability : s.graph.editability f = start.graph.editability f := by
    rw [Graph.editability_of_entry (h.evolves.entry?_eq he) hn', Graph.editability_of_entry he hn,
      hlib, h.editability_eq hv]
  refine ⟨_, by rw [managerFor, Graph.editability_of_entry he hn], ?_⟩
  rw [managerFor, heditability, Graph.editability_of_entry he hn, h.additions]

/-- A member that was not new to its chain is still not new, and it is guarded. -/
theorem not_new (h : Confined user start s) (hs : Sound start)
    (hv : start.graph.versioning = .chain user) (hn : start.graph.model.node? top = some n)
    (ho : n.owner = none)
    (hnew : start.graph.versioning.isNewToChain start.graph.model top = false) :
    s.graph.versioning.isNewToChain s.graph.model top = false ∧
      s.graph.versioning.Guards s.graph.model top := by
  rw [hv] at hnew
  obtain ⟨origin, hcontinues⟩ := Continues.exists_of_newInChain hs.shelved hn ho hnew
  have hstill := h.continues hcontinues
  rw [h.versioning]
  exact ⟨hstill.newInChain_eq_false, (hstill.guards user).1⟩

end Confined

/-- A session over a snapshot with version chains, whatever its history, permits no more after any
sequence of runs and lookups: every library is as editable as it was, every facade has the manager
that it had, and a member that was not new to its chain is still not new, and is guarded. -/
theorem keeps_permissions {snapshot : Snapshot} {loaded : Snapshot.Loaded} {g : Graph}
    (hload : snapshot.load = .ok loaded)
    (hgraph : Graph.ofModel loaded.model (.chain user) = .ok g) (history calls : List Call)
    (hcalls : ∀ c ∈ calls, c.Unprivileged) :
    let start := (ofGraph g).after history
    let s := start.after calls
    (∀ lib, s.graph.versioning.editability s.graph.model lib =
      start.graph.versioning.editability start.graph.model lib) ∧
    (∀ f e, start.graph.facades.entry? f = some e →
      ∃ manager, start.managerFor f = .ok manager ∧ s.managerFor f = .ok manager) ∧
    ∀ top n, start.graph.model.node? top = some n → n.owner = none →
      start.graph.versioning.isNewToChain start.graph.model top = false →
        s.graph.versioning.isNewToChain s.graph.model top = false ∧
          s.graph.versioning.Guards s.graph.model top := by
  intro start s
  obtain ⟨g', hg', -, hversioning, hsound⟩ := exists_sound_of_load hload (.chain user)
  obtain rfl := Except.ok.inj (hg'.symm.trans hgraph)
  have hstart : Sound start := hsound.after history
  have hv : start.graph.versioning = .chain user :=
    (evolves_after hsound.managed history).versioning_eq.trans hversioning
  have hconfined : Confined user start s := (Confined.refl hstart hv).after hcalls
  refine ⟨hconfined.editability_eq hv, fun f e he => ?_, fun top n hn ho hnew => ?_⟩
  · exact hconfined.managerFor_eq hstart.managed hv he
  · exact hconfined.not_new hstart hv hn ho hnew

end SchemaEditor.Session

namespace SchemaEditor.Snapshot

open Session (Call)

/-- A session that renames the object in either version, in vain, and gives it an alias. -/
theorem permissions_twoVersions :
    ∃ loaded g, twoVersions.load = .ok loaded ∧
      Graph.ofModel loaded.model (.chain none) = .ok g ∧
      let start := (Session.ofGraph g).after [.graph (.members ⟨1⟩)]
      let calls : List Call := [.graph (.members ⟨0⟩), .run .setName ⟨1⟩ (some (.text "Invoice")),
        .run .setName ⟨0⟩ (some (.text "Invoice")), .run .addAlias ⟨0⟩ (some (.text "Sale"))]
      let s := start.after calls
      (∃ manager, start.managerFor ⟨0⟩ = .ok manager ∧ s.managerFor ⟨0⟩ = .ok manager) ∧
        s.graph.versioning.isNewToChain s.graph.model ⟨4⟩ = false ∧
          s.graph.versioning.Guards s.graph.model ⟨4⟩ := by
  obtain ⟨loaded, hload, n, hn, ho, -, hnew⟩ := carries_twoVersions
  obtain ⟨_, g, hload', hgraph, hp⟩ := exists_graph_twoVersions (v := .chain none) (p := fun g =>
    ((Session.ofGraph g).after [.graph (.members ⟨1⟩)]).graph.facades.entry? ⟨0⟩ =
      some ⟨⟨4⟩, .member .businessObject⟩) (by decide +kernel)
  obtain rfl := Except.ok.inj (hload.symm.trans hload')
  obtain ⟨_, hgraph', hmodel, hversioning, hs⟩ :=
    Session.exists_sound_of_load hload (.chain none)
  obtain rfl := Except.ok.inj (hgraph.symm.trans hgraph')
  have hstart : (Graph.Call.apply g (.members ⟨1⟩)).model = loaded.model :=
    (Graph.Call.model_of_isLookup (c := .members ⟨1⟩) hs.managed trivial).trans hmodel
  have hv : (Graph.Call.apply g (.members ⟨1⟩)).versioning = .chain none :=
    (Graph.Call.evolves hs.managed _).versioning_eq.trans hversioning
  obtain ⟨-, hmanagers, hmembers⟩ := Session.keeps_permissions hload hgraph
    [.graph (.members ⟨1⟩)] [.graph (.members ⟨0⟩), .run .setName ⟨1⟩ (some (.text "Invoice")),
      .run .setName ⟨0⟩ (some (.text "Invoice")), .run .addAlias ⟨0⟩ (some (.text "Sale"))]
    (by simp [Call.Unprivileged, Call.Mediated, Graph.Call.IsLookup])
  refine ⟨loaded, g, hload, hgraph, hmanagers ⟨0⟩ _ (of_decide_eq_true hp), hmembers ⟨4⟩ n ?_ ho ?_⟩
  · show (Graph.Call.apply g (.members ⟨1⟩)).model.node? ⟨4⟩ = some n
    rw [hstart]
    exact hn
  · show (Graph.Call.apply g (.members ⟨1⟩)).versioning.isNewToChain _ _ = false
    rw [hv]
    exact (congrArg (Versioning.newInChain · _) hstart).trans hnew

end SchemaEditor.Snapshot
