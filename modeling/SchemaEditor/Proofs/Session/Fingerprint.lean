import SchemaEditor.Proofs.Model.Fingerprint
import SchemaEditor.Proofs.Session.Loaded

/-!
# Fingerprints of what a session edits

A fingerprint is there to notice that a model has changed. It notices every change of an attached
node, whichever runs led to it, as long as no text of a node contains the separator behind it in the
line of the node. Runs may write any text, and then an edit of two texts can go unnoticed.
-/

namespace SchemaEditor

namespace Model

variable {m m' : Model}

/-- Where SHA-256 is injective, two models whose nodes are legible, however they were reached, have
the same fingerprint only if the same nodes are attached in both of them and hold the same. -/
theorem attached_agree_of_fingerprint_eq {hashable : Set (List UInt8)}
    (hsha : Set.InjOn Digest.Sha256.hex hashable) (hm : m.hashed ∈ hashable)
    (hm' : m'.hashed ∈ hashable) (h : m.Legible) (h' : m'.Legible)
    (heq : m.fingerprint = m'.fingerprint) (id : NodeId) :
    (m.IsAttached id ↔ m'.IsAttached id) ∧
      ∀ n n', m.node? id = some n → n.attached = true → m'.node? id = some n' →
        n'.attached = true → n.Agrees n' := by
  have hperm := h.lines_perm h' (hsha hm hm' heq)
  have hshown {n : Node} (hn : m.node? id = some n) (ha : n.attached = true) :=
    exists_agrees_of_mem_lines (h id n hn ha) h'
      (hperm.mem_iff.mp (mem_lines_iff.mpr ⟨id, n, hn, ha, rfl⟩))
  refine ⟨⟨?_, ?_⟩, fun n n' hn ha hn' _ => ?_⟩
  · rintro ⟨n, hn, ha⟩
    obtain ⟨n', hn', ha', -⟩ := hshown hn ha
    exact ⟨n', hn', ha'⟩
  · rintro ⟨n, hn, ha⟩
    obtain ⟨n', hn', ha', -⟩ := exists_agrees_of_mem_lines (h' id n hn ha) h
      (hperm.mem_iff.mpr (mem_lines_iff.mpr ⟨id, n, hn, ha, rfl⟩))
    exact ⟨n', hn', ha'⟩
  · obtain ⟨k, hk, -, hagrees⟩ := hshown hn ha
    obtain rfl := Option.some.inj (hk.symm.trans hn')
    exact hagrees

end Model

namespace Snapshot

open Session (Call)

/-- A library with one object. -/
def singleOrder : Snapshot := shop [.object "Order" none []]

/-- The facade of the object is asked for. -/
def singleOrderOpened : List Call := [.graph (.facadeFor ⟨0⟩)]

/-- The object is given an alias, which is deleted again. -/
def aliasComesAndGoes : List Call :=
  [.run .addAlias ⟨0⟩ (some (.text "Purchase")), .run .deleteAlias ⟨1⟩ none]

/-- An alias that came and went leaves a node behind, but nothing that is attached: so the
fingerprint is the one before, and the facets of the object are attached as before. -/
theorem attached_agree_aliasComesAndGoes :
    ∃ loaded g, singleOrder.load = .ok loaded ∧
      Graph.ofModel loaded.model (.chain none) = .ok g ∧
      let start := (Session.ofGraph g).after singleOrderOpened
      let edited := start.after aliasComesAndGoes
      start.graph.model ≠ edited.graph.model ∧
      start.graph.model.fingerprint = edited.graph.model.fingerprint ∧
      ∀ id, start.graph.model.IsAttached id ↔ edited.graph.model.IsAttached id := by
  obtain ⟨loaded, g, hload, hgraph, hp⟩ := exists_graph (s := singleOrder) (v := .chain none)
    (p := fun g =>
      let start := (Session.ofGraph g).after singleOrderOpened
      let edited := start.after aliasComesAndGoes
      decide (start.graph.model ≠ edited.graph.model ∧
        start.graph.model.lines = edited.graph.model.lines ∧
        start.graph.model.Legible ∧ edited.graph.model.Legible)) (by decide +kernel)
  obtain ⟨hne, hlines, hstart, hedited⟩ := of_decide_eq_true hp
  have hhashed := congrArg (fun lines => (Digest.fingerprintText lines).toUTF8.toList) hlines
  have heq := congrArg Digest.fingerprint hlines
  exact ⟨loaded, g, hload, hgraph, hne, heq, fun id =>
    (Model.attached_agree_of_fingerprint_eq (Set.injOn_singleton _ _) rfl hhashed.symm hstart
      hedited heq id).1⟩

/-- The bar between the description and the example is written into the description. -/
def barInDescription : List Call :=
  [.run .setDescription ⟨0⟩ (some (.text "a|")), .run .setExample ⟨0⟩ (some (.text "b"))]

/-- The same bar is written into the example. -/
def barInExample : List Call :=
  [.run .setDescription ⟨0⟩ (some (.text "a")), .run .setExample ⟨0⟩ (some (.text "|b"))]

/-- Two descriptions and examples of one object have the same line, so the very same bytes are
hashed for two models that differ. -/
theorem fingerprint_misses_moved_bar :
    ∃ loaded g, singleOrder.load = .ok loaded ∧
      Graph.ofModel loaded.model (.chain none) = .ok g ∧
      let start := (Session.ofGraph g).after singleOrderOpened
      let m := (start.after barInDescription).graph.model
      let m' := (start.after barInExample).graph.model
      m.hashed = m'.hashed ∧ m.fingerprint = m'.fingerprint ∧
      (m.node? ⟨0⟩).map (fun n => (n.attached, n.doc.description)) = some (true, "a|") ∧
      (m'.node? ⟨0⟩).map (fun n => (n.attached, n.doc.description)) = some (true, "a") := by
  obtain ⟨loaded, g, hload, hgraph, hp⟩ := exists_graph (s := singleOrder) (v := .chain none)
    (p := fun g =>
      let start := (Session.ofGraph g).after singleOrderOpened
      let m := (start.after barInDescription).graph.model
      let m' := (start.after barInExample).graph.model
      decide (m.lines = m'.lines ∧
        (m.node? ⟨0⟩).map (fun n => (n.attached, n.doc.description)) = some (true, "a|") ∧
        (m'.node? ⟨0⟩).map (fun n => (n.attached, n.doc.description)) = some (true, "a")))
    (by decide +kernel)
  obtain ⟨hlines, hdescriptions⟩ := of_decide_eq_true hp
  have hhashed := congrArg (fun lines => (Digest.fingerprintText lines).toUTF8.toList) hlines
  exact ⟨loaded, g, hload, hgraph, hhashed, congrArg Digest.Sha256.hex hhashed, hdescriptions⟩

end Snapshot

end SchemaEditor
