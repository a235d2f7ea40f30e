import SchemaEditor.Model.Builder
import SchemaEditor.Proofs.Model.Operation

/-!
# Models that were built

`Builder.Call` lists what may be asked of a builder, operations on the model under construction
included, and `after` is the builder after a sequence of calls. What a call does to the model is
said once, in `apply_induct`: so owners and children of the model agree, whatever was asked, and
each node stays where it is.
-/

namespace SchemaEditor.Builder

open Model (Forest Extends)

/-- What may be asked of a builder. -/
inductive Call where
  | library (l : Library)
  | xsd (name : String)
  | member (lib : LibraryId) (kind : NodeKind) (name : String)
  | child (owner : NodeId) (kind : NodeKind) (name : String)
  | property (object : NodeId) (role : FacetRole) (kind : NodeKind) (name : String)
  | assign (user provider : NodeId)
  | extend (object base : NodeId)
  | contribute (facet target : NodeId)
  /-- An operation on the model under construction. -/
  | model (op : Model.Op)

/-- A builder after a call; a refused call leaves it as it was. -/
def Call.apply (b : Builder) : Call → Builder
  | .library l => (b.library l).2
  | .xsd name => (b.xsd name).2
  | .member lib kind name => kept ((·.2) <$> b.member lib kind name)
  | .child owner kind name => kept ((·.2) <$> b.child owner kind name)
  | .property object role kind name => kept ((·.2) <$> b.property object role kind name)
  | .assign user provider => kept (b.assign user provider)
  | .extend object base => kept (b.extend object base)
  | .contribute facet target => kept (b.contribute facet target)
  | .model op => { b with model := op.apply b.model }
where
  /-- The builder that a step gives, or else the one before it. -/
  kept : Except Model.Error Builder → Builder
    | .ok b' => b'
    | .error _ => b

/-- A builder after a sequence of calls. -/
def after (b : Builder) (calls : List Call) : Builder := calls.foldl Call.apply b

variable {b b' : Builder} {id : NodeId}

/-! ### What the steps do to the model -/

theorem model_of_member {library : LibraryId} {kind : NodeKind} {name : String}
    (h : b.member library kind name = .ok (id, b')) :
    b.model.addMember library kind name = .ok (id, b'.model) ∧ b'.builtins = b.builtins := by
  obtain ⟨⟨id', m⟩, hadd, h⟩ := Outcome.bind_eq_ok_iff.mp h
  obtain ⟨rfl, rfl⟩ := Prod.mk.inj (Except.ok.inj h)
  exact ⟨hadd, rfl⟩

theorem model_of_child {owner : NodeId} {kind : NodeKind} {name : String}
    (h : b.child owner kind name = .ok (id, b')) :
    b.model.addChild owner kind name = .ok (id, b'.model) ∧ b'.builtins = b.builtins := by
  obtain ⟨⟨id', m⟩, hadd, h⟩ := Outcome.bind_eq_ok_iff.mp h
  obtain ⟨rfl, rfl⟩ := Prod.mk.inj (Except.ok.inj h)
  exact ⟨hadd, rfl⟩

theorem child_of_property {member : NodeId} {role : FacetRole} {kind : NodeKind} {name : String}
    (h : b.property member role kind name = .ok (id, b')) :
    ∃ facet, b.child facet kind name = .ok (id, b') := by
  unfold property at h
  split at h
  · exact ⟨_, h⟩
  · cases h

theorem model_of_assign {user provider : NodeId} (h : b.assign user provider = .ok b') :
    (∃ k, b.model.node? provider = some k) ∧
      b.model.setTypeRef user (some provider) = .ok b'.model ∧ b'.builtins = b.builtins := by
  obtain ⟨k, hk, h⟩ := Outcome.bind_eq_ok_iff.mp h
  obtain ⟨m, hset, h⟩ := Outcome.bind_eq_ok_iff.mp h
  obtain rfl := Except.ok.inj h
  exact ⟨⟨k, Model.node_eq_ok_iff.mp hk⟩, hset, rfl⟩

theorem model_of_extend {member base : NodeId} (h : b.extend member base = .ok b') :
    (∃ k, b.model.node? base = some k) ∧
      b.model.setBase member (some base) = .ok b'.model ∧ b'.builtins = b.builtins := by
  obtain ⟨k, hk, h⟩ := Outcome.bind_eq_ok_iff.mp h
  obtain ⟨m, hset, h⟩ := Outcome.bind_eq_ok_iff.mp h
  obtain rfl := Except.ok.inj h
  exact ⟨⟨k, Model.node_eq_ok_iff.mp hk⟩, hset, rfl⟩

theorem model_of_contribute {facet target : NodeId} (h : b.contribute facet target = .ok b') :
    b.model.setContributesTo facet (some target) = .ok b'.model ∧ b'.builtins = b.builtins := by
  obtain ⟨k, hk, h⟩ := Outcome.bind_eq_ok_iff.mp h
  obtain ⟨m, hset, h⟩ := Outcome.bind_eq_ok_iff.mp h
  obtain rfl := Except.ok.inj h
  exact ⟨hset, rfl⟩

/-! ### Owners and children agree -/

/-- A call does nothing to the model but what these changes do; a refused call does nothing. -/
theorem apply_induct {P : Model → Prop} (h : P b.model) (c : Call)
    (library : ∀ m l, P m → P (m.addLibrary l).2)
    (member : ∀ m lib kind name, P m → kind.isMember = true → P (m.appendMember lib kind name).2)
    (child : ∀ m owner p kind name, P m → m.node? owner = some p → p.attached = true →
      P (m.appendChild owner p.library kind name).2)
    (modify : ∀ m id (f : Node → Node), P m → (∀ n : Node, n.SamePlace (f n)) →
      P (m.modifyNode id f))
    (operation : ∀ m op, P m → P (Model.Op.apply m op)) : P (c.apply b).model := by
  have keep {q : Except Model.Error Builder} (hq : ∀ b', q = .ok b' → P b'.model) :
      P (Call.apply.kept b q).model := by
    cases q with
    | error e => exact h
    | ok b' => exact hq b' rfl
  have added {owner kind name id b'} (hadd : b.child owner kind name = .ok (id, b')) :
      P b'.model := by
    obtain ⟨p, hp, ha, he⟩ := Model.addChild_eq_ok_iff.mp (model_of_child hadd).1
    rw [(Prod.mk.inj he).2]
    exact child _ owner p kind name h hp ha
  have update {id m} {f : Node → Node} (hm : b.model.update id f = .ok m)
      (hf : ∀ n : Node, n.SamePlace (f n)) : P m := by
    obtain ⟨-, rfl⟩ := Model.update_eq_ok_iff.mp hm
    exact modify _ id f h hf
  cases c with
  | library l => exact library _ l h
  | xsd name =>
    have hbuiltins : P b.withBuiltins.2.model := by
      unfold withBuiltins
      split
      · exact h
      · exact library _ _ h
    show P (b.xsd name).2.model
    unfold xsd
    simp only
    split
    · exact hbuiltins
    · exact member _ _ _ name hbuiltins rfl
  | member lib kind name =>
    refine keep fun b' hb' => ?_
    obtain ⟨⟨id, _⟩, hadd, rfl⟩ := Outcome.map_eq_ok_iff.mp hb'
    obtain ⟨hk, -, he⟩ := Model.addMember_eq_ok_iff.mp (model_of_member hadd).1
    rw [(Prod.mk.inj he).2]
    exact member _ lib kind name h hk
  | child owner kind name =>
    refine keep fun b' hb' => ?_
    obtain ⟨⟨id, _⟩, hadd, rfl⟩ := Outcome.map_eq_ok_iff.mp hb'
    exact added hadd
  | property object role kind name =>
    refine keep fun b' hb' => ?_
    obtain ⟨⟨id, _⟩, hadd, rfl⟩ := Outcome.map_eq_ok_iff.mp hb'
    obtain ⟨facet, hadd⟩ := child_of_property hadd
    exact added hadd
  | assign user provider =>
    exact keep fun b' hb' => update (model_of_assign hb').2.1 fun _ => ⟨rfl, rfl, rfl, rfl, rfl⟩
  | extend object base =>
    exact keep fun b' hb' => update (model_of_extend hb').2.1 fun _ => ⟨rfl, rfl, rfl, rfl, rfl⟩
  | contribute facet target =>
    exact keep fun b' hb' => update (model_of_contribute hb').1 fun _ => ⟨rfl, rfl, rfl, rfl, rfl⟩
  | model op => exact operation _ op h

theorem forest_apply (h : Forest b.model) (c : Call) : Forest (c.apply b).model :=
  apply_induct h c (fun _ _ h => h.of_nodes rfl) (fun _ lib _ name h hk => h.appendMember lib hk name)
    (fun _ _ _ kind name h hp ha => h.appendChild hp ha kind name)
    (fun _ id _ h hf => h.modifyNode id hf) fun _ op h => h.apply op

/-- A call keeps each node where it is. -/
theorem extends_apply (h : Forest b.model) (c : Call) : Extends b.model (c.apply b).model := by
  refine (apply_induct (P := fun m => Forest m ∧ Extends b.model m) ⟨h, .refl _⟩ c
    (fun m l ⟨hf, he⟩ => ⟨hf.of_nodes rfl, he.trans (.of_nodes rfl)⟩)
    (fun m lib kind name ⟨hf, he⟩ hk =>
      ⟨hf.appendMember lib hk name, he.trans (.appendMember m lib kind name)⟩)
    (fun m owner p kind name ⟨hf, he⟩ hp ha =>
      ⟨hf.appendChild hp ha kind name, he.trans (.appendChild m owner p.library kind name)⟩)
    (fun m id f ⟨hf, he⟩ hsame => ⟨hf.modifyNode id hsame,
      he.trans (.modifyNode m id fun n => ⟨(hsame n).kind, (hsame n).owner, (hsame n).library⟩)⟩)
    fun m op ⟨hf, he⟩ => ⟨hf.apply op, he.trans (hf.extends_apply op)⟩).2

/-- The model of a builder is a forest, whatever was asked of the builder. -/
theorem forest_after (h : Forest b.model) (calls : List Call) : Forest (b.after calls).model := by
  induction calls generalizing b with
  | nil => exact h
  | cons c calls ih => exact ih (forest_apply h c)

end SchemaEditor.Builder
