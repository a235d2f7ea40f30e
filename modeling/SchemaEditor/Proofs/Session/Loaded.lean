import SchemaEditor.Proofs.Graph.Detached
import SchemaEditor.Proofs.Graph.Verify
import SchemaEditor.Proofs.Session.Run

/-!
# Sessions over snapshots

The graph over the model of a snapshot is managed, its libraries list its members, and no reference
leads to a detached node or is stored in one. Every history of a session keeps all of this, so that
verification finds nothing, however often actions were run or refused and calls were made.
-/

namespace SchemaEditor.Session

open SchemaEditor.Graph (Evolves Managed)
open Model (Shelved Tidy Bare)

/-- What a session over a snapshot keeps. -/
structure Sound (s : Session) : Prop where
  managed : Managed s.graph
  shelved : Shelved s.graph.model
  tidy : Tidy s.graph.model
  bare : Bare s.graph.model

namespace Sound

variable {s : Session} {P : Graph → Graph.Change → Prop} {s' : Session}

theorem of_evolves (h : Sound s) (hev : Evolves P s.graph s'.graph) : Sound s' :=
  ⟨hev.managed h.managed, hev.shelved h.managed.forest h.shelved, hev.tidy h.tidy, hev.bare h.bare⟩

theorem after (h : Sound s) (calls : List Call) : Sound (s.after calls) :=
  h.of_evolves (evolves_after h.managed calls)

end Sound

/-- There is a session over every snapshot that can be loaded. -/
theorem exists_sound_of_load {snapshot : Snapshot} {loaded : Snapshot.Loaded}
    (h : snapshot.load = .ok loaded) (v : Versioning) :
    ∃ g, Graph.ofModel loaded.model v = .ok g ∧ g.model = loaded.model ∧ g.versioning = v ∧
      Sound (ofGraph g) := by
  have hw := Snapshot.whole_of_load h
  obtain ⟨x, hgraph, hg⟩ := Graph.exists_ofModel hw.forest v
  exact ⟨_, hgraph, rfl, rfl, hg, hw.shelved, hw.tidy, hw.bare⟩

/-- Verification finds nothing in a session over a snapshot, whatever its history. -/
theorem verify_after_eq_nil {snapshot : Snapshot} {loaded : Snapshot.Loaded}
    (h : snapshot.load = .ok loaded) (v : Versioning) :
    ∃ g, Graph.ofModel loaded.model v = .ok g ∧
      ∀ calls : List Call, ((ofGraph g).after calls).graph.verify = [] := by
  obtain ⟨g, hgraph, -, -, hs⟩ := exists_sound_of_load h v
  refine ⟨g, hgraph, fun calls => ?_⟩
  have hafter := hs.after calls
  exact hafter.managed.verify_eq_nil hafter.shelved hafter.tidy

end SchemaEditor.Session

namespace SchemaEditor.Snapshot

/-- A library in two versions: the second one, still a draft, carries an object forward. -/
def twoVersions : Snapshot where
  libraries :=
    [{ name := "Shop", uri := "urn:shop", version := ⟨1, 0, 0⟩, status := .final, managed := false
       lockedBy := none, members := [.object "Order" none []] },
      { name := "Shop", uri := "urn:shop", version := ⟨1, 1, 0⟩, status := .draft, managed := false
        lockedBy := none
        members := [.object "Order" (some "Order-1.1")
          [{ kind := .property .element, name := "Total", typeKey := some "xsd:decimal"
             mandatory := true, description := "" }]] }]

/-- The two versions can be loaded, and what is computed of their model holds of it. -/
theorem exists_twoVersions {p : Loaded → Bool}
    (hp : (match twoVersions.load with | .ok loaded => p loaded | .error _ => false) = true) :
    ∃ loaded, twoVersions.load = .ok loaded ∧ p loaded = true :=
  exists_loaded hp

/-- There is a graph over the two versions, and what is computed of it holds of it. -/
theorem exists_graph_twoVersions {v : Versioning} {p : Graph → Bool}
    (hp : (twoVersions.load.toOption.any fun loaded =>
      (Graph.ofModel loaded.model v).toOption.any p) = true) :
    ∃ loaded g, twoVersions.load = .ok loaded ∧ Graph.ofModel loaded.model v = .ok g ∧
      p g = true :=
  exists_graph hp

/-- A session over the two versions, with versioning by their chain. -/
theorem verify_twoVersions :
    ∃ loaded g, twoVersions.load = .ok loaded ∧
      Graph.ofModel loaded.model (.chain none) = .ok g ∧
      ∀ calls : List Session.Call, ((Session.ofGraph g).after calls).graph.verify = [] := by
  obtain ⟨loaded, h, -⟩ := exists_twoVersions (p := fun _ => true) (by decide +kernel)
  obtain ⟨g, hgraph, hverify⟩ := Session.verify_after_eq_nil h (.chain none)
  exact ⟨loaded, g, h, hgraph, hverify⟩

end SchemaEditor.Snapshot
