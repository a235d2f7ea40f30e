import SchemaEditor.Proofs.Graph.Naming

/-!
# Edits of types and bases

On a managed graph a reference is pointed or cleared, in the model and in the index, as soon as
the conditions of the edit hold, and nothing is touched where they do not. The name of a property
follows the type that it is assigned.
-/

namespace SchemaEditor.Graph

open Model (Layered)
open Outcome (bind_ok bind_error)

variable {g : Graph} {id user provider member base : FacadeId} {node p : NodeId} {n k : Node}
variable {r : Usage.Reference}

/-! ### References -/

theorem editUsage_assign (hg : Managed g) (hn : g.model.node? r.user = some n)
    (ha : n.attached = true) (hp : g.model.node? p = some k) (hpa : k.attached = true) :
    ∃ g', editUsage (fun x m => x.assign m r p) g = .ok (g.model.reference? r) g' ∧
      Step g (.point r p) g' ∧ g'.facades = g.facades ∧ g'.model.reference? r = some p := by
  obtain ⟨x, hassign, hx⟩ := hg.usage.assign hg.forest hn ha hp
  refine ⟨_, by rw [editUsage, hassign], .point hn ha hp hpa hx, rfl, ?_⟩
  show Model.reference? (Model.modifyNode _ _ _) r = _
  rw [Model.reference?_write hn ha, Function.update_self]

theorem editUsage_unassign (hg : Managed g) (hn : g.model.node? r.user = some n)
    (ha : n.attached = true) :
    ∃ g', editUsage (fun x m => x.unassign m r) g = .ok (g.model.reference? r) g' ∧
      Step g (.clear r) g' :=
  ⟨_, by rw [editUsage, (hg.usage.unassign hg.forest hn ha).1], .clear hn ha⟩

theorem clearSlot_eq (hg : Managed g) (hnode : g.attachedNode id = .ok node) (slot : Usage.Slot) :
    ∃ g', clearSlot id slot g = .ok (g.model.reference? ⟨node, slot⟩) g' ∧
      Step g (.clear ⟨node, slot⟩) g' := by
  obtain ⟨-, n, -, -, hn, ha⟩ := attachedNode_eq_ok_iff.mp hnode
  obtain ⟨g', hrun, hstep⟩ := editUsage_unassign (r := ⟨node, slot⟩) hg hn ha
  exact ⟨g', by rw [clearSlot, bind_ok (ask_of_ok hnode), hrun], hstep⟩

theorem clearSlot_atomic (hg : Managed g) (id : FacadeId) (slot : Usage.Slot) :
    Atomic (Lossless Steady) (clearSlot id slot) g := by
  cases hnode : g.attachedNode id with
  | error err => exact .refused err (by rw [clearSlot, bind_error (ask_of_error hnode)])
  | ok node =>
    obtain ⟨g', hrun, hstep⟩ := clearSlot_eq hg hnode slot
    have hclear : Lossless Steady g (.clear ⟨node, slot⟩) := ⟨⟨trivial, trivial⟩, nofun⟩
    exact .of_ok hrun (.single hclear hstep)

/-! ### Types -/

theorem attached_of_canAssign (h : g.canAssign user provider = .ok ⟨⟩) :
    (∃ u, g.attachedNode user = .ok u) ∧ ∃ p, g.attachedNode provider = .ok p := by
  obtain ⟨u, hu, h⟩ := Outcome.bind_eq_ok_iff.mp h
  obtain ⟨p, hp, -⟩ := Outcome.bind_eq_ok_iff.mp h
  exact ⟨⟨u, hu⟩, p, hp⟩

/-- The class of a type that can be assigned is one that the user takes. -/
theorem joins_of_canAssign (hg : Managed g) (h : g.canAssign user provider = .ok ⟨⟩)
    (hu : g.attachedNode user = .ok node) (hp : g.attachedNode provider = .ok p)
    (hn : g.model.node? node = some n) : g.model.Joins n p := by
  obtain ⟨e, _, he, rfl, -, -⟩ := attachedNode_eq_ok_iff.mp hu
  obtain ⟨f, _, hf, rfl, -, -⟩ := attachedNode_eq_ok_iff.mp hp
  simp only [canAssign, hu, hp, kind_of_entry he, kind_of_entry hf, Outcome.ok_bind] at h
  split at h
  · next hclass =>
    obtain ⟨c, hc, hmem⟩ := (Option.any_eq_true ..).mp hclass.2
    have huser := (Model.facadeKind?_of_node? hn).symm.trans (hg.facades.known he)
    have hprovider : g.model.providerClass? f.node = some c := by
      rw [Model.providerClass?, hg.facades.known hf, Option.bind_some, hc]
    rw [List.contains_iff_mem] at hmem
    cases hclasses : e.kind.assignable? with
    | none =>
      rw [hclasses] at hmem
      cases hmem
    | some classes =>
      rw [hclasses] at hmem
      exact ⟨e.kind, classes, c, huser, hclasses, hprovider, hmem⟩
  · cases h

/-- No node can be assigned as its own type, as it has one facade only. -/
theorem ne_of_canAssign (hg : Managed g) (h : g.canAssign user provider = .ok ⟨⟩)
    (hu : g.attachedNode user = .ok node) (hp : g.attachedNode provider = .ok p) : p ≠ node := by
  obtain ⟨e, _, he, rfl, -, -⟩ := attachedNode_eq_ok_iff.mp hu
  obtain ⟨f, _, hf, rfl, -, -⟩ := attachedNode_eq_ok_iff.mp hp
  simp only [canAssign, hu, hp, kind_of_entry he, kind_of_entry hf, Outcome.ok_bind] at h
  split at h
  · next hclass => exact fun hsame => hclass.1 (hg.facades.distinct he hf hsame.symm)
  · cases h

/-- A type is assigned as soon as the two facades can be joined: the reference is pointed, and then
the user takes the name that follows, if one does. -/
theorem assignType_cases (hg : Managed g) (hcan : g.canAssign user provider = .ok ⟨⟩)
    (hu : g.attachedNode user = .ok node) (hp : g.attachedNode provider = .ok p) :
    ∃ g₁ g' n₁ kind, assignType user provider g = .ok (g.model.reference? ⟨node, .type⟩) g' ∧
      Step g (.point ⟨node, .type⟩ p) g₁ ∧ g₁.model.node? node = some n₁ ∧
      n₁.typeRef = some p ∧ g₁.model.reference? ⟨node, .type⟩ = some p ∧
      g₁.model.facadeKind? node = some kind ∧
      (g₁.model.followedName? kind p = .ok none ∧ g' = g₁ ∨
        ∃ name, g₁.model.followedName? kind p = .ok (some name) ∧
          g' = { g₁ with model := g₁.model.modifyNode node fun n => { n with name } }) := by
  obtain ⟨e, n, he, rfl, hn, ha⟩ := attachedNode_eq_ok_iff.mp hu
  obtain ⟨f, k, hf, rfl, hk, hka⟩ := attachedNode_eq_ok_iff.mp hp
  obtain ⟨g₁, hassign, hstep, hfacades, href⟩ :=
    editUsage_assign (r := ⟨e.node, .type⟩) hg hn ha hk hka
  have he₁ : g₁.facades.entry? user = some e := hfacades ▸ he
  have hg₁ := hstep.managed hg
  obtain ⟨n₁, hn₁, -, htype⟩ := Model.reference?_eq_some_iff.mp href
  obtain ⟨k₁, hk₁, -⟩ := hstep.extends_.same hk
  obtain ⟨name?, hname⟩ := hg₁.forest.exists_followedName? hk₁ e.kind
  have hrun : assignType user provider g = (match name? with
      | none => return g.model.reference? ⟨e.node, .type⟩
      | some name => do
        editModel fun m => m.setName e.node name
        return g.model.reference? ⟨e.node, .type⟩ : Edit (Option NodeId)) g₁ := by
    rw [assignType, bind_ok (ask_of_ok hcan), bind_ok (ask_of_ok (nodeOf_of_entry he)),
      bind_ok (ask_of_ok (nodeOf_of_entry hf)), bind_ok hassign,
      bind_ok (ask_of_ok (kind_of_entry he₁)), bind_ok (ask_of_ok (ofModelResult_of_ok hname))]
    cases name? <;> rfl
  rw [hrun]
  cases name? with
  | none =>
    exact ⟨g₁, g₁, n₁, e.kind, rfl, hstep, hn₁, htype, href, hg₁.facades.known he₁,
      .inl ⟨hname, rfl⟩⟩
  | some name =>
    exact ⟨g₁, _, n₁, e.kind, bind_ok (editModel_setName hn₁ name), hstep, hn₁, htype, href,
      hg₁.facades.known he₁, .inr ⟨name, hname, rfl⟩⟩

/-- A type is assigned as soon as the two facades can be joined. Then the name of the user is
brought up to date. -/
theorem assignType_steps (hg : Managed g) (hcan : g.canAssign user provider = .ok ⟨⟩)
    (hu : g.attachedNode user = .ok node) (hp : g.attachedNode provider = .ok p) :
    ∃ g₁ g', assignType user provider g = .ok (g.model.reference? ⟨node, .type⟩) g' ∧
      Step g (.point ⟨node, .type⟩ p) g₁ ∧ Evolves (Follows [p]) g₁ g' ∧
      (Layered g₁.model → g'.model.Current node) := by
  obtain ⟨g₁, g', n₁, kind, hrun, hstep, hn₁, htype, href, hkind, hnamed⟩ :=
    assignType_cases hg hcan hu hp
  have hg₁ := hstep.managed hg
  have hkind' := (Model.facadeKind?_of_node? hn₁).symm.trans hkind
  obtain ⟨hname, rfl⟩ | ⟨name, hname, rfl⟩ := hnamed
  · refine ⟨_, _, hrun, hstep, .refl, fun _ n' p' hn' hp' => ?_⟩
    obtain rfl := Option.some.inj (hn₁.symm.trans hn')
    obtain rfl := Option.some.inj (htype.symm.trans hp')
    exact hg₁.forest.upToDate hkind' hname fun _ he => by cases he
  · refine ⟨_, _, hrun, hstep, ?_, fun hl => ?_⟩
    · refine .single ?_ (.rename hn₁ name)
      exact ⟨node, p, kind, name, rfl, List.mem_singleton.mpr rfl, href, hkind, hname⟩
    · exact .rename hg₁.forest hl hn₁ htype hkind' hname (.inl rfl)

theorem assignType_eq (hg : Managed g) (hcan : g.canAssign user provider = .ok ⟨⟩)
    (hu : g.attachedNode user = .ok node) (hp : g.attachedNode provider = .ok p) :
    ∃ g', assignType user provider g = .ok (g.model.reference? ⟨node, .type⟩) g' ∧
      Evolves (fun g₁ c => c = .point ⟨node, .type⟩ p ∨ Follows [p] g₁ c) g g' := by
  obtain ⟨g₁, g', hrun, hstep, hev, -⟩ := assignType_steps hg hcan hu hp
  exact ⟨g', hrun, (Evolves.single (.inl rfl) hstep).trans (hev.mono fun _ _ => .inr)⟩

theorem assignType_atomic (hg : Managed g) (user provider : FacadeId) :
    Atomic (Lossless Admitted) (assignType user provider) g := by
  cases hcan : g.canAssign user provider with
  | error err => exact .refused err (by rw [assignType, bind_error (ask_of_error hcan)])
  | ok =>
    obtain ⟨⟨u, hu⟩, p, hp⟩ := attached_of_canAssign hcan
    obtain ⟨g', hrun, hev⟩ := assignType_eq hg hcan hu hp
    refine .of_ok hrun (hev.mono fun _ _ hc => ?_)
    obtain rfl | hc := hc
    · exact ⟨nofun, nofun⟩
    · exact hc.isRename.lossless

/-! ### Bases -/

theorem attached_of_canExtend (h : g.canExtend member base = .ok ⟨⟩) :
    (∃ m, g.attachedNode member = .ok m) ∧ ∃ b, g.attachedNode base = .ok b := by
  obtain ⟨m, hm, h⟩ := Outcome.bind_eq_ok_iff.mp h
  obtain ⟨b, hb, -⟩ := Outcome.bind_eq_ok_iff.mp h
  exact ⟨⟨m, hm⟩, b, hb⟩

/-- Members of one kind that may extend each other can be joined unless that closes a cycle. -/
theorem canExtend_of_kinds (hm : g.attachedNode member = .ok node)
    (hb : g.attachedNode base = .ok p) {k : Facade.Kind} (hk : g.kind member = .ok k)
    (hbk : g.kind base = .ok k) (hs : k.supportsBase = true) :
    g.canExtend member base = if node = p ∨ node ∈ g.model.baseChain p then
      .error (.mismatch member .extensionCycle) else .ok ⟨⟩ := by
  simp only [canExtend, hm, hb, hk, hbk, hs, Outcome.ok_bind, ne_eq, not_true_eq_false,
    Bool.true_eq_false, or_self, if_false]
  rfl

/-- The base of a member that can be joined to it does not lead back to it. -/
theorem not_reaches_of_canExtend (h : g.canExtend member base = .ok ⟨⟩)
    (hm : g.attachedNode member = .ok node) (hb : g.attachedNode base = .ok p) :
    ¬ Relation.ReflTransGen g.model.HasBase p node := by
  obtain ⟨_, hm', h⟩ := Outcome.bind_eq_ok_iff.mp h
  obtain ⟨_, hb', h⟩ := Outcome.bind_eq_ok_iff.mp h
  obtain rfl := Except.ok.inj (hm'.symm.trans hm)
  obtain rfl := Except.ok.inj (hb'.symm.trans hb)
  obtain ⟨k, -, h⟩ := Outcome.bind_eq_ok_iff.mp h
  obtain ⟨bk, -, h⟩ := Outcome.bind_eq_ok_iff.mp h
  intro hreach
  simp only [Model.reaches_iff_mem_baseChain.mp hreach, if_true] at h
  split at h <;> cases h

/-- A member extends another one as soon as the two can be joined. -/
theorem setBaseType_eq (hg : Managed g) (hcan : g.canExtend member base = .ok ⟨⟩)
    (hm : g.attachedNode member = .ok node) (hb : g.attachedNode base = .ok p) :
    ∃ g', setBaseType member base g = .ok (g.model.reference? ⟨node, .base⟩) g' ∧
      Step g (.point ⟨node, .base⟩ p) g' := by
  obtain ⟨e, n, he, rfl, hn, ha⟩ := attachedNode_eq_ok_iff.mp hm
  obtain ⟨f, k, hf, rfl, hk, hka⟩ := attachedNode_eq_ok_iff.mp hb
  obtain ⟨g', hassign, hstep, -⟩ := editUsage_assign (r := ⟨e.node, .base⟩) hg hn ha hk hka
  refine ⟨g', ?_, hstep⟩
  rw [setBaseType, bind_ok (ask_of_ok hcan), bind_ok (ask_of_ok (nodeOf_of_entry he)),
    bind_ok (ask_of_ok (nodeOf_of_entry hf)), hassign]

theorem setBaseType_atomic (hg : Managed g) (member base : FacadeId) :
    Atomic (Lossless Steady) (setBaseType member base) g := by
  cases hcan : g.canExtend member base with
  | error err => exact .refused err (by rw [setBaseType, bind_error (ask_of_error hcan)])
  | ok =>
    obtain ⟨⟨m, hm⟩, b, hb⟩ := attached_of_canExtend hcan
    obtain ⟨g', hrun, hstep⟩ := setBaseType_eq hg hcan hm hb
    have hpoint : Lossless Steady g (.point ⟨m, .base⟩ b) :=
      ⟨⟨fun _ => not_reaches_of_canExtend hcan hm hb, rfl⟩, nofun⟩
    exact .of_ok hrun (.single hpoint hstep)

end SchemaEditor.Graph
