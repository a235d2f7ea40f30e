import SchemaEditor.Proofs.Graph.Evolution
import SchemaEditor.Proofs.Model.Preserved

/-!
# Changes that spare a member

`Spares` says which changes of a graph leave a member preserved: those made outside of it, and of
those made within it the additions, the texts, a mandate that is lifted, and a reference cleared
because its end is gone. Whatever evolves by such changes preserves the member.
-/

namespace SchemaEditor.Graph

open Model (Forest Extends Under)

variable {P : Graph → Change → Prop} {g g' : Graph} {c : Change}
variable {top : NodeId} {t : Node} {gone gone' : NodeId → Prop}

/-- A change leaves a member preserved; references are cleared only if their ends are gone. -/
def Spares (top : NodeId) (gone : NodeId → Prop) (g : Graph) : Change → Prop
  | .register _ | .document _ _ | .grow _ _ _ => True
  | .rename node _ => node ≠ top
  | .mandate node mandatory => mandatory = true → ¬ Under g.model top node
  | .point r _ => ¬ Under g.model top r.user
  | .clear r => Under g.model top r.user → ∀ p, g.model.reference? r = some p → gone p
  | .detach node => ¬ Under g.model top node

namespace Step

/-- A step that spares a member preserves it. -/
theorem preserves (h : Step g c g') (hf : Forest g.model) (ht : g.model.node? top = some t)
    (hroot : t.owner = none) (hc : Spares top gone g c) :
    g.model.Preserves top gone g'.model := by
  cases h with
  | register => exact .refl _ _
  | rename _ name =>
    exact .modifyNode _ (fun htop => absurd htop hc) fun n _ _ =>
      ⟨rfl, rfl, id, List.prefix_refl _, id, fun s => .inl (by cases s <;> rfl)⟩
  | document _ f =>
    exact .modifyNode _ (fun _ _ => rfl) fun n _ _ =>
      ⟨rfl, rfl, id, List.prefix_refl _, id, fun s => .inl (by cases s <;> rfl)⟩
  | mandate _ mandatory =>
    refine .modifyNode _ (fun _ _ => rfl) fun n _ hu =>
      ⟨rfl, rfl, id, List.prefix_refl _, fun hm => absurd hu (hc hm), fun s => .inl ?_⟩
    cases s <;> rfl
  | grow hp _ kind name => exact .appendChild hp _ kind name
  | @point r _ p =>
    refine .modifyNode _ (fun _ n => ?_) fun n _ hu => absurd hu hc
    cases r.slot <;> rfl
  | @clear r _ hn ha =>
    refine .modifyNode _ (fun _ n => ?_) fun n hn' hu => ?_
    · cases r.slot <;> rfl
    · obtain rfl := Option.some.inj (hn.symm.trans hn')
      have hs := r.slot.samePlace_put none
      refine ⟨(hs _).kind, (hs _).owner, fun h => (hs _).attached.trans h,
        (hs _).children ▸ List.prefix_refl _, fun hm => ?_, fun s => ?_⟩
      · cases hslot : r.slot <;> simpa [hslot, Usage.Slot.put] using hm
      · rw [Usage.Slot.reference_put]
        split
        · next hslot =>
          refine .inr ⟨rfl, fun p hp => hc hu p ?_⟩
          rw [Model.reference?_of_attached hn ha, ← hslot, hp]
        · exact .inl rfl
  | detach hn => exact .without hf hn ht hroot hc

/-- Only detaching a member changes a library. -/
theorem libraries_eq (h : Step g c g')
    (hc : ∀ node n, c = .detach node → g.model.node? node = some n → n.owner ≠ none) :
    g'.model.libraries = g.model.libraries := by
  cases h with
  | register | rename | document | mandate | grow | point | clear => rfl
  | detach hn => exact Model.without_libraries (hc _ _ rfl hn)

/-- A node was there before a step, or the step made it grow. -/
theorem exists_before (h : Step g c g') {x : NodeId} {n : Node} (hx : g'.model.node? x = some n) :
    (∃ k, g.model.node? x = some k) ∨
      ∃ owner kind name, c = .grow owner kind name ∧ n.owner = some owner := by
  have modified {m : Model} {id : NodeId} {f : Node → Node}
      (hx : (m.modifyNode id f).node? x = some n) : ∃ k, m.node? x = some k := by
    obtain ⟨k, -, hk, -⟩ | ⟨-, hk⟩ := Model.modifyNode_cases hx
    · exact ⟨k, hk⟩
    · exact ⟨n, hk⟩
  cases h with
  | register => exact .inl ⟨n, hx⟩
  | rename | document | mandate | point | clear => exact .inl (modified hx)
  | @grow owner p hp ha kind name =>
    obtain ⟨-, rfl⟩ | ⟨rfl, -⟩ | ⟨-, hold⟩ := Model.appendChild_cases hp hx
    · exact .inr ⟨owner, kind, name, rfl, rfl⟩
    · exact .inl ⟨p, hp⟩
    · exact .inl ⟨n, hold⟩
  | detach =>
    obtain ⟨k, hk, -⟩ := Model.without_cases hx
    exact .inl ⟨k, hk⟩

end Step

namespace Evolves

/-- Each step is made from a graph that has what the steps keep. -/
theorem along {I : Graph → Prop} (h : Evolves P g g')
    (step : ∀ {g c g'}, I g → P g c → Step g c g' → I g') (hg : I g) :
    Evolves (fun k c => P k c ∧ I k) g g' := by
  induction h with
  | refl => exact .refl
  | step before hp hs ih => exact .step ih ⟨hp, before.keeps step hg⟩ hs

/-- Each step is made from a forest that extends the model before the first one. -/
theorem along_extends (h : Evolves P g g') (hf : Forest g.model) :
    Evolves (fun k c => P k c ∧ Forest k.model ∧ Extends g.model k.model) g g' :=
  h.along (fun hk _ hs => ⟨hs.forest hk.1, hk.2.trans hs.extends_⟩) ⟨hf, .refl _⟩

/-- Each step is made from a graph whose new nodes are below a node if all growth is. -/
theorem along_added {node : NodeId} (h : Evolves P g g')
    (hP : ∀ {k owner kind name}, P k (.grow owner kind name) → Under g.model node owner) :
    Evolves (fun k c => P k c ∧ ∀ {x n}, k.model.node? x = some n → g.model.node? x = none →
      Under k.model node x) g g' := by
  refine (h.along (I := fun k => Extends g.model k.model ∧ ∀ {x n}, k.model.node? x = some n →
    g.model.node? x = none → Under k.model node x) (fun {k c k'} hk hp hs => ?_)
    ⟨.refl _, fun hx hnone => by cases hnone.symm.trans hx⟩).mono fun _ _ hp => ⟨hp.1, hp.2.2⟩
  obtain ⟨hext, hadded⟩ := hk
  refine ⟨hext.trans hs.extends_, fun {x n} hx hnone => ?_⟩
  obtain ⟨n₀, hn₀⟩ | ⟨owner, kind, name, rfl, ho⟩ := hs.exists_before hx
  · exact (hadded hn₀ hnone).of_extends hs.extends_
  · exact .owned hx ho (((hP hp).of_extends hext).of_extends hs.extends_)

theorem libraries_eq (h : Evolves P g g')
    (hP : ∀ {k node n}, P k (.detach node) → k.model.node? node = some n → n.owner ≠ none) :
    g'.model.libraries = g.model.libraries :=
  h.keeps (I := fun k => k.model.libraries = g.model.libraries)
    (fun hk hp hs => (hs.libraries_eq fun _ _ hc hn => hP (hc ▸ hp) hn).trans hk) rfl

/-- Steps that spare a member preserve it. -/
theorem preserves (h : Evolves (Spares top gone) g g') (hf : Forest g.model)
    (ht : g.model.node? top = some t) (hroot : t.owner = none) :
    g.model.Preserves top gone g'.model := by
  refine ((h.along_extends hf).keeps (I := fun k => g.model.Preserves top gone k.model)
    (fun hk hp hs => ?_) (.refl _ _))
  obtain ⟨hspares, hkf, hext⟩ := hp
  obtain ⟨t', ht', -, ho, -⟩ := hext.same ht
  exact hk.trans (hs.preserves hkf ht' (ho.trans hroot) hspares) hext hs.extends_ hkf

end Evolves

end SchemaEditor.Graph
