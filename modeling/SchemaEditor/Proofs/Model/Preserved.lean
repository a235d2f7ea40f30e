import SchemaEditor.Proofs.Usage.Reference

/-!
# Preserved members

`Preserves` says what an edit may still do to a member that has to stay as it is for those who use
it: children may be added at the end of a list, none of them mandatory; a mandatory node may become
optional; and a reference may be cleared when the node that it leads to is gone. Everything else of
the member and of the nodes below it stays.
-/

namespace SchemaEditor

/-- The node keeps its place and what its users rely on. References are cleared only if the node
that they lead to is gone. -/
structure Node.Kept (gone : NodeId → Prop) (n n' : Node) : Prop where
  kind : n'.kind = n.kind
  owner : n'.owner = n.owner
  attached : n.attached = true → n'.attached = true
  children : n.children <+: n'.children
  mandatory : n'.mandatory = true → n.mandatory = true
  reference : ∀ s : Usage.Slot, s.reference n' = s.reference n ∨
    s.reference n' = none ∧ ∀ p, s.reference n = some p → gone p

namespace Node.Kept

variable {gone gone' : NodeId → Prop} {n n' n'' : Node}

theorem refl (n : Node) : n.Kept gone n :=
  ⟨rfl, rfl, id, List.prefix_refl _, id, fun _ => .inl rfl⟩

theorem trans (h : n.Kept gone n') (h' : n'.Kept gone n'') : n.Kept gone n'' where
  kind := h'.kind.trans h.kind
  owner := h'.owner.trans h.owner
  attached ha := h'.attached (h.attached ha)
  children := h.children.trans h'.children
  mandatory hm := h.mandatory (h'.mandatory hm)
  reference s := by
    obtain hs | ⟨hs, hgone⟩ := h.reference s
    · rw [← hs]
      exact h'.reference s
    · -- A reference that was cleared stays so.
      refine .inr ⟨?_, hgone⟩
      obtain hs' | ⟨hs', -⟩ := h'.reference s
      · exact hs'.trans hs
      · exact hs'

theorem mono (h : n.Kept gone n') (hg : ∀ p, gone p → gone' p) : n.Kept gone' n' where
  kind := h.kind
  owner := h.owner
  attached := h.attached
  children := h.children
  mandatory := h.mandatory
  reference s := (h.reference s).imp_right fun hs => ⟨hs.1, fun p hp => hg p (hs.2 p hp)⟩

end Node.Kept

namespace Model

variable {m m' m'' : Model} {top id x : NodeId} {t n : Node} {gone gone' : NodeId → Prop}

/-- A member of a model, with everything below it, is preserved in another model. -/
structure Preserves (m : Model) (top : NodeId) (gone : NodeId → Prop) (m' : Model) : Prop where
  name : ∀ {t}, m.node? top = some t → ∃ t', m'.node? top = some t' ∧ t'.name = t.name
  kept : ∀ {x n}, m.node? x = some n → Under m top x →
    ∃ n', m'.node? x = some n' ∧ n.Kept gone n'
  added : ∀ {x n'}, m.node? x = none → m'.node? x = some n' → Under m' top x →
    n'.mandatory = false

namespace Preserves

theorem refl (m : Model) (top : NodeId) : m.Preserves top gone m where
  name ht := ⟨_, ht, rfl⟩
  kept hn _ := ⟨_, hn, .refl _⟩
  added hx hn _ := by cases hx.symm.trans hn

/-- What is added first is preserved like the rest afterwards. -/
theorem trans (h : m.Preserves top gone m') (h' : m'.Preserves top gone m'')
    (hm : Extends m m') (hm' : Extends m' m'') (hf : Forest m') : m.Preserves top gone m'' where
  name ht := by
    obtain ⟨t', ht', hname⟩ := h.name ht
    obtain ⟨t'', ht'', hname'⟩ := h'.name ht'
    exact ⟨t'', ht'', hname'.trans hname⟩
  kept hn hu := by
    obtain ⟨n', hn', hkept⟩ := h.kept hn hu
    obtain ⟨n'', hn'', hkept'⟩ := h'.kept hn' (hu.of_extends hm)
    exact ⟨n'', hn'', hkept.trans hkept'⟩
  added {x n''} hx hn'' hu := by
    cases hn' : m'.node? x with
    | none => exact h'.added hn' hn'' hu
    | some n' =>
      have hu' := hu.of_extended hf hm' hn'
      obtain ⟨k, hk, hkept⟩ := h'.kept hn' hu'
      obtain rfl := Option.some.inj (hk.symm.trans hn'')
      have hfalse := h.added hx hn' hu'
      exact Bool.eq_false_iff.mpr fun htrue => by
        cases hfalse.symm.trans (hkept.mandatory htrue)

theorem mono (h : m.Preserves top gone m') (hg : ∀ p, gone p → gone' p) :
    m.Preserves top gone' m' where
  name := h.name
  kept hn hu := by
    obtain ⟨n', hn', hkept⟩ := h.kept hn hu
    exact ⟨n', hn', hkept.mono hg⟩
  added := h.added

/-- A change of one node that keeps the node if it belongs to the member. -/
theorem modifyNode (m : Model) {f : Node → Node}
    (hname : id = top → ∀ n, (f n).name = n.name)
    (hkept : ∀ n, m.node? id = some n → Under m top id → n.Kept gone (f n)) :
    m.Preserves top gone (m.modifyNode id f) where
  name {t} ht := by
    rw [node?_modifyNode, ht]
    split
    · next htop => exact ⟨f t, rfl, hname htop.symm t⟩
    · exact ⟨t, rfl, rfl⟩
  kept {x n} hn hu := by
    rw [node?_modifyNode, hn]
    split
    · next hx =>
      subst hx
      exact ⟨f n, rfl, hkept n hn hu⟩
    · exact ⟨n, rfl, .refl n⟩
  added {x n'} hx hn' _ := by
    rw [node?_modifyNode, hx] at hn'
    split at hn' <;> cases hn'

/-- A new node is not mandatory, and it is the last child of its owner. -/
theorem appendChild {owner : NodeId} {p : Node} (hp : m.node? owner = some p)
    (library : LibraryId) (kind : NodeKind) (name : String) :
    m.Preserves top gone (m.appendChild owner library kind name).2 where
  name {t} ht := by
    obtain ⟨cs, -, hcs⟩ := exists_node?_appendChild hp ht library kind name
    exact ⟨_, hcs, rfl⟩
  kept {x n} hn _ := by
    obtain ⟨cs, hsub, hcs⟩ := exists_node?_appendChild hp hn library kind name
    exact ⟨_, hcs, rfl, rfl, id, hsub, id, fun s => .inl (by cases s <;> rfl)⟩
  added {x n'} hx hn' _ := by
    obtain ⟨-, rfl⟩ | ⟨rfl, rfl⟩ | ⟨-, hn⟩ := appendChild_cases hp hn'
    · rfl
    · cases hx.symm.trans hp
    · cases hx.symm.trans hn

/-- Detaching a node that does not belong to the member. -/
theorem without (h : Forest m) (hn : m.node? id = some n) (ht : m.node? top = some t)
    (hroot : t.owner = none) (hid : ¬ Under m top id) : m.Preserves top gone (m.without id n) where
  name {t} ht := ⟨_, node?_without_of_node? ht id n, rfl⟩
  kept {x k} hk hu := by
    have howner : n.owner ≠ some x := fun ho => hid (.owned hn ho hu)
    have hbelow : x ∉ m.preorder id := fun hx =>
      hid (.above ht hroot hu (h.under_of_mem_preorder hn hx).1)
    refine ⟨_, node?_without_of_node? hk id n, ?_⟩
    refine ⟨rfl, rfl, fun ha => ?_, ?_, fun hm => hm, fun s => .inl (by cases s <;> rfl)⟩
    · exact Node.attached_cut.mpr ⟨ha, hbelow⟩
    · simp [Node.cut, howner]
  added {x n'} hx hn' _ := by
    rw [node?_without, hx] at hn'
    cases hn'

end Preserves

end Model

end SchemaEditor
