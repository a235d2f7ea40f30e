import SchemaEditor.Proofs.Graph.Call
import SchemaEditor.Proofs.Snapshot.Load

/-!
# Extension closes no cycle

Bases may form cycles before a graph is made of a model: a builder sets any base that exists, and so
does a snapshot. From then on no call puts a node on a cycle that was on none. A base is only ever
set by a member that the base does not lead back to; all other steps clear bases or leave them.
-/

namespace SchemaEditor

namespace Model

variable {m : Model} {owner u : NodeId} {p n : Node}

theorem base?_modifyNode (m : Model) (id : NodeId) {f : Node → Node}
    (hf : ∀ n, (f n).base = n.base) (x : NodeId) : (m.modifyNode id f).base? x = m.base? x := by
  rw [base?, base?, node?_modifyNode]
  split
  · cases m.node? x with
    | none => rfl
    | some n => exact hf n
  · rfl

theorem base?_appendChild (hp : m.node? owner = some p) (kind : NodeKind) (name : String)
    (x : NodeId) : (m.appendChild owner p.library kind name).2.base? x = m.base? x := by
  rw [base?, base?, node?_appendChild hp]
  split
  · next hnew => rw [hnew, node?_nextId]; rfl
  · split
    · next hown => rw [hown, hp]; rfl
    · rfl

theorem base?_without (m : Model) (id : NodeId) (n : Node) (x : NodeId) :
    (m.without id n).base? x = m.base? x := by
  rw [base?, base?, node?_without]
  cases m.node? x <;> rfl

/-- Writing the base of a node changes its base and no other one. -/
theorem base?_put (hu : m.node? u = some n) (provider : Option NodeId) :
    (m.modifyNode u (Usage.Slot.base.put provider)).base? = Function.update m.base? u provider := by
  funext x
  rw [base?, node?_modifyNode]
  by_cases hx : x = u
  · subst hx
    rw [if_pos rfl, hu, Function.update_self]
    rfl
  · rw [if_neg hx, Function.update_of_ne hx, base?]

end Model

namespace Graph

variable {g g' : Graph} {c : Change} {x : NodeId}

/-- A step sets the base of a node, or clears it, or leaves all bases as they are. -/
theorem Step.base?_cases (h : Step g c g') :
    (∃ u b, c = .point ⟨u, .base⟩ b ∧
      g'.model.base? = Function.update g.model.base? u (some b)) ∨
    (∃ u, c = .clear ⟨u, .base⟩ ∧ g'.model.base? = Function.update g.model.base? u none) ∨
    g'.model.base? = g.model.base? := by
  have kept {id : NodeId} (f : Node → Node) (hf : ∀ n, (f n).base = n.base) :
      (g.model.modifyNode id f).base? = g.model.base? :=
    funext (Model.base?_modifyNode g.model id hf)
  cases h with
  | register => exact .inr (.inr rfl)
  | rename hn name => exact .inr (.inr (kept (fun n => { n with name }) fun _ => rfl))
  | document hn f => exact .inr (.inr (kept (fun n => { n with doc := f n.doc }) fun _ => rfl))
  | mandate hn flag => exact .inr (.inr (kept (fun n => { n with mandatory := flag }) fun _ => rfl))
  | grow hp _ kind name => exact .inr (.inr (funext (Model.base?_appendChild hp kind name)))
  | @point r n p _ _ hn =>
    obtain ⟨u, slot⟩ := r
    cases slot with
    | type => exact .inr (.inr (kept (Usage.Slot.type.put (some p)) fun _ => rfl))
    | base => exact .inl ⟨u, p, rfl, Model.base?_put hn (some p)⟩
  | @clear r n hn =>
    obtain ⟨u, slot⟩ := r
    cases slot with
    | type => exact .inr (.inr (kept (Usage.Slot.type.put none) fun _ => rfl))
    | base => exact .inr (.inl ⟨u, rfl, Model.base?_put hn none⟩)
  | detach => exact .inr (.inr (funext (Model.base?_without _ _ _)))

/-- An admitted step puts no node on a cycle of bases. -/
theorem Step.onBaseCycle (h : Step g c g') (hc : Admitted g c) (hx : g'.model.OnBaseCycle x) :
    g.model.OnBaseCycle x := by
  obtain ⟨u, b, rfl, hbase⟩ | ⟨u, rfl, hbase⟩ | hbase := h.base?_cases
  · apply Model.onBaseCycle_of_base hbase _ hx
    intro b' hb'
    obtain rfl := Option.some.inj hb'
    exact hc rfl
  · apply Model.onBaseCycle_of_base hbase _ hx
    intro b' hb'
    cases hb'
  · exact (Model.onBaseCycle_congr hbase).mp hx

/-- Admitted steps put no node on a cycle of bases. -/
theorem Evolves.onBaseCycle (h : Evolves Admitted g g') (hx : g'.model.OnBaseCycle x) :
    g.model.OnBaseCycle x :=
  h.keeps (I := fun k => k.model.OnBaseCycle x → g.model.OnBaseCycle x)
    (fun hk hc hs hx => hk (hs.onBaseCycle hc hx)) id hx

/-- Where a graph may come from: a builder, after any calls, or a snapshot. -/
inductive Source : Model → Prop
  | built (steps : List Builder.Call) : Source (Builder.empty.after steps).model
  | loaded {s : Snapshot} {loaded : Snapshot.Loaded} (h : s.load = .ok loaded) :
      Source loaded.model

theorem Source.forest {m : Model} (h : Source m) : m.Forest := by
  cases h with
  | built steps => exact Builder.forest_after (b := .empty) .empty steps
  | loaded h => exact (Snapshot.whole_of_load h).forest

variable {member base : FacadeId} {u b : NodeId} {k : Facade.Kind}

/-- Two members of a kind that supports bases can be joined by extension, unless the member would
then lie on a cycle. -/
theorem canExtend_iff_not_onBaseCycle (hm : g.attachedNode member = .ok u)
    (hb : g.attachedNode base = .ok b) (hk : g.kind member = .ok k) (hbk : g.kind base = .ok k)
    (hs : k.supportsBase = true) :
    ∃ m, g.model.setBase u (some b) = .ok m ∧
      (g.canExtend member base = .error (.mismatch member .extensionCycle) ↔ m.OnBaseCycle u) ∧
      (g.canExtend member base = .ok ⟨⟩ ↔ ¬ m.OnBaseCycle u) := by
  obtain ⟨-, n, -, -, hn, -⟩ := attachedNode_eq_ok_iff.mp hm
  have hcycle : (g.model.modifyNode u (Usage.Slot.base.put (some b))).OnBaseCycle u ↔
      u = b ∨ u ∈ g.model.baseChain b := by
    rw [Model.onBaseCycle_iff_reaches (Model.base?_put hn (some b)),
      Model.reaches_iff_mem_baseChain]
  refine ⟨_, Model.update_of_node? hn _, Iff.trans ?_ hcycle.symm,
    Iff.trans ?_ (not_congr hcycle).symm⟩
  · rw [canExtend_of_kinds hm hb hk hbk hs]
    split <;> simp_all
  · rw [canExtend_of_kinds hm hb hk hbk hs]
    split <;> simp_all

/-- Over every model that was built or loaded, with cycles of bases or without, there is a graph in
which no call ever puts a node on a cycle that was on none. So bases without cycles stay so. An
extension between members of a kind that supports bases is refused for a cycle exactly if it would
put the member on one, and else it is possible. -/
theorem extension_closes_no_cycle {m : Model} (h : Source m) (v : Versioning) :
    ∃ g, ofModel m v = .ok g ∧
      (∀ (calls more : List Call) x, ¬ (g.after calls).model.OnBaseCycle x →
        ¬ ((g.after calls).after more).model.OnBaseCycle x) ∧
      ((∀ x, ¬ m.OnBaseCycle x) → ∀ calls x, ¬ (g.after calls).model.OnBaseCycle x) ∧
      ∀ calls member base u b k, (g.after calls).attachedNode member = .ok u →
        (g.after calls).attachedNode base = .ok b → (g.after calls).kind member = .ok k →
        (g.after calls).kind base = .ok k → k.supportsBase = true →
        ∃ m', (g.after calls).model.setBase u (some b) = .ok m' ∧
          ((g.after calls).canExtend member base = .error (.mismatch member .extensionCycle) ↔
            m'.OnBaseCycle u) ∧
          ((g.after calls).canExtend member base = .ok ⟨⟩ ↔ ¬ m'.OnBaseCycle u) := by
  obtain ⟨x, hgraph, hg⟩ := exists_ofModel h.forest v
  refine ⟨_, hgraph, fun calls more y hy hcycle => ?_, fun hacyclic calls y hcycle => ?_,
    fun calls member base u b k hm hb hk hbk hs => canExtend_iff_not_onBaseCycle hm hb hk hbk hs⟩
  · have hafter := (evolves_after hg calls).managed hg
    exact hy ((evolves_after hafter more).onBaseCycle hcycle)
  · exact hacyclic y ((evolves_after hg calls).onBaseCycle hcycle)

end Graph

namespace Snapshot

/-- There is a graph over a snapshot for which something is computed of it. -/
theorem exists_graph {s : Snapshot} {v : Versioning} {p : Graph → Bool}
    (hp : (s.load.toOption.any fun loaded =>
      (Graph.ofModel loaded.model v).toOption.any p) = true) :
    ∃ loaded g, s.load = .ok loaded ∧ Graph.ofModel loaded.model v = .ok g ∧ p g = true := by
  simp only [Option.any_eq_true, Outcome.toOption_eq_some_iff] at hp
  obtain ⟨loaded, hload, g, hgraph, hp⟩ := hp
  exact ⟨loaded, g, hload, hgraph, hp⟩

/-- Two objects that extend each other, and one that extends the first of them. -/
def extendedInTurn : Snapshot :=
  shop [{ Member.object "Order" none [] with baseKey := some "Offer" },
    { Member.object "Offer" none [] with baseKey := some "Order" },
    { Member.object "Quote" none [] with baseKey := some "Order" }]

/-- The first object lies on a cycle. The last one does not, although its bases lead into the cycle,
and never comes to lie on one. -/
theorem extension_extendedInTurn :
    ∃ loaded g, extendedInTurn.load = .ok loaded ∧
      Graph.ofModel loaded.model (.chain none) = .ok g ∧ loaded.model.OnBaseCycle ⟨0⟩ ∧
      ¬ loaded.model.OnBaseCycle ⟨8⟩ ∧
      ∀ calls, ¬ (g.after calls).model.OnBaseCycle ⟨8⟩ := by
  obtain ⟨loaded, h, hp⟩ := exists_loaded (s := extendedInTurn) (p := fun loaded =>
    decide (loaded.model.OnBaseCycle ⟨0⟩ ∧ ¬ loaded.model.OnBaseCycle ⟨8⟩)) (by decide +kernel)
  obtain ⟨hcycle, hfree⟩ := of_decide_eq_true hp
  obtain ⟨g, hgraph, hnever, -⟩ := Graph.extension_closes_no_cycle (.loaded h) (.chain none)
  obtain ⟨x, hgraph', -⟩ := Graph.exists_ofModel (Snapshot.whole_of_load h).forest (.chain none)
  obtain rfl := Except.ok.inj (hgraph'.symm.trans hgraph)
  exact ⟨loaded, _, h, hgraph, hcycle, hfree, fun calls => hnever [] calls ⟨8⟩ hfree⟩

end Snapshot

end SchemaEditor
