import SchemaEditor.Proofs.Graph.Call

/-!
# The where-used index is never stale

The index of a graph is kept up to date piece by piece, by each assignment, each clearing and each
deletion. Here it is compared with the index that is built from the model at once: after any calls,
the two give the same answers. So the members where a node is used can be read off the model.
-/

namespace SchemaEditor

namespace Usage.Index

variable {x y : Index} {m : Model} {p top : NodeId}

/-- Two indexes give the same answers. -/
structure Alike (x y : Index) : Prop where
  provider? : ∀ r, x.provider? r = y.provider? r
  usersOf : ∀ p, x.usersOf p = y.usersOf p
  whereUsed : ∀ p, x.whereUsed p = y.whereUsed p
  providers : x.providers = y.providers

/-- What an index of a model shows decides its answers. -/
theorem Agrees.alike (hx : x.Agrees m) (hy : y.Agrees m) : x.Alike y where
  provider? r := (hx.assigned r).trans (hy.assigned r).symm
  usersOf := hx.usersOf_eq hy
  whereUsed := hx.whereUsed_eq hy
  providers := hx.providers_eq hy

/-- A node is used in the members that contain an attached node with a reference to it. -/
theorem Agrees.mem_whereUsed_iff (h : x.Agrees m) :
    top ∈ x.whereUsed p ↔ ∃ id n, m.node? id = some n ∧ n.attached = true ∧
      (n.typeRef = some p ∨ n.base = some p) ∧ m.memberOf id = .ok top := by
  rw [h.mem_whereUsed]
  constructor
  · rintro ⟨⟨id, slot⟩, href, hmem⟩
    obtain ⟨n, hn, ha, hslot⟩ := Model.reference?_eq_some_iff.mp href
    exact ⟨id, n, hn, ha, Slot.exists_reference_iff.mp ⟨slot, hslot⟩,
      Model.member?_eq_some_iff.mp hmem⟩
  · rintro ⟨id, n, hn, ha, href, hmem⟩
    obtain ⟨slot, hslot⟩ := Slot.exists_reference_iff.mpr href
    exact ⟨⟨id, slot⟩, Model.reference?_eq_some_iff.mpr ⟨n, hn, ha, hslot⟩,
      Model.member?_eq_some_iff.mpr hmem⟩

end Usage.Index

namespace Graph

/-- The members where a node is used are nodes. -/
theorem Managed.exists_node?_of_mem_whereUsed {g : Graph} (hg : Managed g) {p top : NodeId}
    (h : top ∈ g.usage.whereUsed p) : ∃ t, g.model.node? top = some t := by
  obtain ⟨user, n, hn, -, -, hmember⟩ := hg.usage.mem_whereUsed_iff.mp h
  obtain ⟨_, t, hmember', ht, -⟩ := hg.forest.exists_memberOf hn
  obtain rfl := Except.ok.inj (hmember'.symm.trans hmember)
  exact ⟨t, ht⟩

/-- Over every model that was built there is a graph, and after any calls its index gives the same
answers as the index built from the model at once. The members where a node is used are listed in
order, each once, and are those of the attached nodes that refer to it. -/
theorem usage_alike_rebuilt (steps : List Builder.Call) (v : Versioning) :
    ∃ g, ofModel (Builder.empty.after steps).model v = .ok g ∧ ∀ calls : List Call,
      (∃ rebuilt, Usage.Index.seed (g.after calls).model = .ok rebuilt ∧
        (g.after calls).usage.Alike rebuilt) ∧
      ∀ p, ((g.after calls).usage.whereUsed p).Pairwise (fun a b => a.index < b.index) ∧
        ∀ top, top ∈ (g.after calls).usage.whereUsed p ↔
          ∃ id n, (g.after calls).model.node? id = some n ∧ n.attached = true ∧
            (n.typeRef = some p ∨ n.base = some p) ∧
            (g.after calls).model.memberOf id = .ok top := by
  obtain ⟨x, hgraph, hg⟩ := exists_ofModel (Builder.forest_after (b := .empty) .empty steps) v
  refine ⟨_, hgraph, fun calls => ?_⟩
  have hafter := (evolves_after hg calls).managed hg
  refine ⟨?_, fun p => ⟨?_, fun top => ?_⟩⟩
  · exact (Usage.Index.exists_seed _).imp fun _ ⟨hseed, hrebuilt⟩ =>
      ⟨hseed, hafter.usage.alike hrebuilt⟩
  · exact Usage.Index.whereUsed_increasing _ p
  · exact hafter.usage.mem_whereUsed_iff

end Graph

end SchemaEditor
