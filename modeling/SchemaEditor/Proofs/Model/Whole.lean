import SchemaEditor.Proofs.Model.Building
import SchemaEditor.Proofs.Model.Shelf
import SchemaEditor.Proofs.Usage.Reference

/-!
# Models from which nothing was taken

While a model is built up, every node of it is attached and every reference leads to a node. `Whole`
states this together with the agreement of owners, children and libraries. Adding libraries, members
and children keeps a model whole, and so does setting a reference to a node that exists.
-/

namespace SchemaEditor

namespace Model

open Usage (Slot)

variable {m : Model} {id : NodeId} {n : Node}

/-- Everything is attached and listed, and references lead to nodes. -/
structure Whole (m : Model) : Prop where
  forest : Forest m
  shelved : Shelved m
  attached : ∀ {id n}, m.node? id = some n → n.attached = true
  ends : ∀ {id n} (s : Slot) {p}, m.node? id = some n → s.reference n = some p →
    ∃ k, m.node? p = some k

namespace Whole

theorem empty : Whole .empty :=
  ⟨.empty, .empty, fun h => by simp [node?, Model.empty] at h,
    fun _ _ h => by simp [node?, Model.empty] at h⟩

/-- References of attached nodes lead to attached nodes. -/
theorem tidy (h : Whole m) : Tidy m := by
  intro r p hp
  obtain ⟨n, hn, -, href⟩ := reference?_eq_some_iff.mp hp
  obtain ⟨k, hk⟩ := h.ends r.slot hn href
  exact ⟨k, hk, h.attached hk⟩

theorem addLibrary (h : Whole m) {l : Library} (hl : l.members = []) : Whole (m.addLibrary l).2 :=
  ⟨h.forest.of_nodes rfl, h.shelved.addLibrary hl, h.attached, h.ends⟩

theorem reference_fresh (s : Slot) (kind : NodeKind) (library : LibraryId) (owner : Option NodeId)
    (name : String) : s.reference (.fresh kind library owner name) = none := by
  cases s <;> rfl

theorem withMember (h : Whole m) {lib : LibraryId} {l : Library} (hl : m.library? lib = some l)
    {kind : NodeKind} (hk : kind.isMember = true) (name : String) :
    Whole (m.withMember lib kind name) := by
  have look (x) := node?_withMember m lib kind name x
  constructor
  case forest => exact h.forest.withMember lib hk name
  case shelved => exact h.shelved.withMember hl kind name
  case attached =>
    intro x k hx
    rw [look] at hx
    split at hx
    · cases hx
      rfl
    · exact h.attached hx
  case ends =>
    intro x k s p hx href
    rw [look] at hx
    split at hx
    · cases hx
      cases (reference_fresh ..).symm.trans href
    · obtain ⟨q, hq⟩ := h.ends s hx href
      exact ⟨q, by rw [look, if_neg (ne_nextId hq), hq]⟩

theorem appendChild (h : Whole m) {owner : NodeId} {o : Node} (ho : m.node? owner = some o)
    (kind : NodeKind) (name : String) : Whole (m.appendChild owner o.library kind name).2 := by
  have kept {x k} (hx : m.node? x = some k) :
      ∃ k', (m.appendChild owner o.library kind name).2.node? x = some k' := by
    obtain ⟨cs, -, hcs⟩ := exists_node?_appendChild ho hx o.library kind name
    exact ⟨_, hcs⟩
  constructor
  case forest => exact h.forest.appendChild ho (h.attached ho) kind name
  case shelved => exact h.shelved.appendChild ho kind name
  case attached =>
    intro x k hx
    obtain ⟨-, rfl⟩ | ⟨-, rfl⟩ | ⟨-, hx⟩ := appendChild_cases ho hx
    · rfl
    · exact h.attached (n := o) ho
    · exact h.attached hx
  case ends =>
    intro x k s p hx href
    obtain ⟨-, rfl⟩ | ⟨-, rfl⟩ | ⟨-, hx⟩ := appendChild_cases ho hx
    · cases (reference_fresh ..).symm.trans href
    · have href : s.reference o = some p := by cases s <;> exact href
      obtain ⟨q, hq⟩ := h.ends s ho href
      exact kept hq
    · obtain ⟨q, hq⟩ := h.ends s hx href
      exact kept hq

theorem appendMember (h : Whole m) {lib : LibraryId} {l : Library} (hl : m.library? lib = some l)
    {kind : NodeKind} (hk : kind.isMember = true) (name : String) :
    Whole (m.appendMember lib kind name).2 :=
  appendMember_induct lib kind name (h.withMember hl hk name)
    fun _ _ _ kind name h ho _ => h.appendChild ho kind name

/-- A change of a node in place whose references are its old ones or lead to nodes. -/
theorem modifyNode (h : Whole m) (id : NodeId) {f : Node → Node}
    (hf : ∀ n : Node, n.SamePlace (f n))
    (hr : ∀ n (s : Slot) p, s.reference (f n) = some p → s.reference n = some p ∨
      ∃ k, m.node? p = some k) : Whole (m.modifyNode id f) := by
  have kept {x k} (hx : m.node? x = some k) : ∃ k', (m.modifyNode id f).node? x = some k' := by
    rw [node?_modifyNode, hx]
    split
    · exact ⟨_, rfl⟩
    · exact ⟨k, rfl⟩
  constructor
  case forest => exact h.forest.modifyNode id hf
  case shelved => exact h.shelved.modifyNode id hf
  case attached =>
    intro x k hx
    obtain ⟨q, -, hq, rfl⟩ | ⟨-, hx⟩ := modifyNode_cases hx
    · exact (hf q).attached.trans (h.attached hq)
    · exact h.attached hx
  case ends =>
    intro x k s p hx href
    obtain ⟨q, -, hq, rfl⟩ | ⟨-, hx⟩ := modifyNode_cases hx
    · obtain hold | ⟨e, he⟩ := hr q s p href
      · obtain ⟨e, he⟩ := h.ends s hq hold
        exact kept he
      · exact kept he
    · obtain ⟨e, he⟩ := h.ends s hx href
      exact kept he

end Whole

end Model

/-! ### Building -/

namespace Model

variable {m : Model} {id : LibraryId}

theorem exists_library? : (∃ l, m.library? id = some l) ↔ id.index < m.libraries.size := by
  constructor
  · rintro ⟨l, hl⟩
    exact (Array.getElem?_eq_some_iff.mp hl).1
  · intro h
    exact ⟨m.libraries[id.index], Array.getElem?_eq_some_iff.mpr ⟨h, rfl⟩⟩

@[simp] theorem appendMember_libraries_size (m : Model) (library : LibraryId) (kind : NodeKind)
    (name : String) :
    (m.appendMember library kind name).2.libraries.size = m.libraries.size :=
  appendMember_induct (P := fun m' => m'.libraries.size = m.libraries.size) library kind name
    (by simp [withMember, modifyLibrary]) fun _ _ _ _ _ h _ _ => h

end Model

namespace Builder

open Model (Whole)

/-- The model under construction is whole, and it has the library of built-in types. -/
structure Sound (b : Builder) : Prop where
  whole : Whole b.model
  builtins : ∀ {id}, b.builtins = some id → id.index < b.model.libraries.size

variable {b b' : Builder} {id node : NodeId}

namespace Sound

theorem empty : Sound .empty := ⟨.empty, fun h => by cases h⟩

/-- A step that keeps the library of built-in types where it is. -/
theorem of_whole (h : Sound b) (hw : Whole b'.model) (hb : b'.builtins = b.builtins)
    (hl : b.model.libraries.size ≤ b'.model.libraries.size) : Sound b' :=
  ⟨hw, fun hid => Nat.lt_of_lt_of_le (h.builtins (hb ▸ hid)) hl⟩

theorem library (h : Sound b) {l : Library} (hl : l.members = []) : Sound (b.library l).2 :=
  h.of_whole (h.whole.addLibrary hl) rfl (by simp [Builder.library, Model.addLibrary])

theorem withBuiltins (h : Sound b) :
    Sound b.withBuiltins.2 ∧ b.withBuiltins.1.index < b.withBuiltins.2.model.libraries.size := by
  unfold Builder.withBuiltins
  split
  · next id hid => exact ⟨h, h.builtins hid⟩
  · have hnew : (b.model.addLibrary builtinLibrary).1.index <
        (b.model.addLibrary builtinLibrary).2.libraries.size := by
      simp [Model.addLibrary]
    refine ⟨⟨h.whole.addLibrary rfl, fun hid => ?_⟩, hnew⟩
    cases hid
    exact hnew

theorem xsd (h : Sound b) (name : String) : Sound (b.xsd name).2 := by
  obtain ⟨hb, hlib⟩ := h.withBuiltins
  unfold Builder.xsd
  simp only
  split
  · exact hb
  · obtain ⟨l, hl⟩ := Model.exists_library?.mpr hlib
    exact hb.of_whole (hb.whole.appendMember hl rfl name) rfl (by simp)

theorem member (h : Sound b) {library : LibraryId} {kind : NodeKind} {name : String}
    (hadd : b.member library kind name = .ok (id, b')) : Sound b' := by
  obtain ⟨hadd, hbuiltins⟩ := model_of_member hadd
  obtain ⟨hk, ⟨l, hl⟩, he⟩ := Model.addMember_eq_ok_iff.mp hadd
  have hm : b'.model = (b.model.appendMember library kind name).2 := congrArg Prod.snd he
  refine h.of_whole ?_ hbuiltins ?_
  · rw [hm]
    exact h.whole.appendMember hl hk name
  · exact Nat.le_of_eq (by rw [hm, Model.appendMember_libraries_size])

theorem child (h : Sound b) {owner : NodeId} {kind : NodeKind} {name : String}
    (hadd : b.child owner kind name = .ok (id, b')) : Sound b' := by
  obtain ⟨hadd, hbuiltins⟩ := model_of_child hadd
  obtain ⟨o, ho, -, he⟩ := Model.addChild_eq_ok_iff.mp hadd
  have hm : b'.model = (b.model.appendChild owner o.library kind name).2 := congrArg Prod.snd he
  refine h.of_whole ?_ hbuiltins ?_
  · rw [hm]
    exact h.whole.appendChild ho kind name
  · exact Nat.le_of_eq (by rw [hm, Model.appendChild_libraries])

theorem modifyNode (h : Sound b) {f : Node → Node} (hm : b'.model = b.model.modifyNode node f)
    (hb : b'.builtins = b.builtins) (hf : ∀ n : Node, n.SamePlace (f n))
    (hr : ∀ n (s : Usage.Slot) p, s.reference (f n) = some p → s.reference n = some p ∨
      ∃ k, b.model.node? p = some k) : Sound b' := by
  refine h.of_whole ?_ hb ?_
  · rw [hm]
    exact h.whole.modifyNode node hf hr
  · exact Nat.le_of_eq (by rw [hm, Model.modifyNode_libraries])

theorem assign (h : Sound b) {user provider : NodeId} (hset : b.assign user provider = .ok b') :
    Sound b' := by
  obtain ⟨⟨k, hk⟩, hset, hb⟩ := model_of_assign hset
  obtain ⟨-, hm⟩ := Model.update_eq_ok_iff.mp hset
  refine h.modifyNode hm hb (fun _ => ⟨rfl, rfl, rfl, rfl, rfl⟩) fun n s p hp => ?_
  cases s with
  | type => exact .inr ⟨k, Option.some.inj hp ▸ hk⟩
  | base => exact .inl hp

theorem extend (h : Sound b) {member base : NodeId} (hset : b.extend member base = .ok b') :
    Sound b' := by
  obtain ⟨⟨k, hk⟩, hset, hb⟩ := model_of_extend hset
  obtain ⟨-, hm⟩ := Model.update_eq_ok_iff.mp hset
  refine h.modifyNode hm hb (fun _ => ⟨rfl, rfl, rfl, rfl, rfl⟩) fun n s p hp => ?_
  cases s with
  | type => exact .inl hp
  | base => exact .inr ⟨k, Option.some.inj hp ▸ hk⟩

theorem contribute (h : Sound b) {facet target : NodeId}
    (hset : b.contribute facet target = .ok b') : Sound b' := by
  obtain ⟨hset, hb⟩ := model_of_contribute hset
  obtain ⟨-, hm⟩ := Model.update_eq_ok_iff.mp hset
  refine h.modifyNode hm hb (fun _ => ⟨rfl, rfl, rfl, rfl, rfl⟩) fun n s p hp => ?_
  cases s <;> exact .inl hp

end Sound

end Builder

end SchemaEditor
