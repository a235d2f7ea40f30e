import SchemaEditor.Proofs.Graph.Naming

/-!
# Adding children

On a managed graph a property, an alias or a literal is added as soon as the conditions of the edit
hold: the new node is the next one of the arena, and it has a facade afterwards.
-/

namespace SchemaEditor

namespace Model

variable {m : Model} {id : NodeId} {n : Node}

theorem Forest.exists_childNames (h : Forest m) (hn : m.node? id = some n) :
    ∃ names, m.childNames id = .ok names := by
  rw [childNames, node_of_node? hn, Outcome.ok_bind]
  refine Outcome.exists_mapM fun c hc => ?_
  obtain ⟨k, hk, -⟩ := h.owned hn hc
  exact h.exists_nodeName hk

theorem mem_childNames_iff {name : String} {names : List String} (hn : m.node? id = some n)
    (h : m.childNames id = .ok names) :
    name ∈ names ↔ ∃ c ∈ n.children, m.nodeName c = .ok name := by
  rw [childNames, node_of_node? hn, Outcome.ok_bind] at h
  rw [← List.mem_map, Outcome.map_of_mapM h]
  simp

end Model

namespace Graph

open Outcome (bind_ok bind_error run_bind_eq_ok_iff)

variable {g g' : Graph} {id : FacadeId} {owner container : NodeId} {p : Node}

/-- The new node that an addition hands out a facade for. -/
def GrowsBelow (owner : NodeId) (kind : NodeKind) (name : String) (node : NodeId) (c : Change) :
    Prop :=
  c = .grow owner kind name ∨ c = .register node

theorem GrowsBelow.lossless {kind : NodeKind} {name : String} {node : NodeId} {c : Change}
    (hk : kind.isFacet = false ∧ kind.isMember = false) (h : GrowsBelow owner kind name node c) :
    Lossless Steady g c := by
  obtain rfl | rfl := h
  · exact ⟨⟨hk, trivial⟩, nofun⟩
  · exact ⟨⟨trivial, trivial⟩, nofun⟩

theorem editModelWith_addChild (hp : g.model.node? owner = some p) (ha : p.attached = true)
    (kind : NodeKind) (name : String) :
    ∃ g', editModelWith (fun m => m.addChild owner kind name) g = .ok g.model.nextId g' ∧
      Step g (.grow owner kind name) g' ∧
      g'.model.node? g.model.nextId = some (.fresh kind p.library (some owner) name) := by
  refine ⟨_, ?_, .grow hp ha kind name, ?_⟩
  · rw [editModelWith, Model.addChild_of_attached hp ha]
    rfl
  · show (Model.appendChild _ _ _ _ _).2.node? _ = _
    rw [Model.node?_appendChild hp, if_pos rfl]

/-! ### Aliases and literals -/

/-- A named child is added as soon as its name is neither empty nor taken: the node grows, and then
its facade is handed out. -/
theorem addNamedChild_steps (hg : Managed g) {kind : NodeKind} {k : Facade.Kind} {name : String}
    {taken : List String} (hnode : g.attachedNode id = .ok owner)
    (hk : Facade.Kind.ofNode? kind = some k) (hname : Text.trim name ≠ "")
    (htaken : g.model.childNames owner = .ok taken) (hfree : Text.trim name ∉ taken) :
    ∃ facade g₁ g', addNamedChild id kind name g = .ok facade g' ∧
      Step g (.grow owner kind (Text.trim name)) g₁ ∧
      Evolves (fun _ c => c = .register g.model.nextId) g₁ g' ∧
      g'.facades.entry? facade = some ⟨g.model.nextId, k⟩ := by
  obtain ⟨-, p, -, -, hp, ha⟩ := attachedNode_eq_ok_iff.mp hnode
  obtain ⟨g₁, hadd, hstep, hnew⟩ := editModelWith_addChild hp ha kind (Text.trim name)
  obtain ⟨facade, g', hwrap, hev, he⟩ :=
    facadeFor_eq (hstep.managed hg) ((Model.facadeKind?_of_node? hnew).trans hk)
  refine ⟨facade, g₁, g', ?_, hstep, hev, he⟩
  rw [addNamedChild, bind_ok (ask_of_ok hnode)]
  simp only [if_neg hname]
  rw [bind_ok (ask_of_ok (ofModelResult_of_ok htaken))]
  simp only [if_neg hfree]
  rw [bind_ok hadd, hwrap]

theorem addNamedChild_eq (hg : Managed g) {kind : NodeKind} {k : Facade.Kind} {name : String}
    {taken : List String} (hnode : g.attachedNode id = .ok owner)
    (hk : Facade.Kind.ofNode? kind = some k) (hname : Text.trim name ≠ "")
    (htaken : g.model.childNames owner = .ok taken) (hfree : Text.trim name ∉ taken) :
    ∃ facade g', addNamedChild id kind name g = .ok facade g' ∧
      Evolves (fun _ => GrowsBelow owner kind (Text.trim name) g.model.nextId) g g' ∧
      g'.facades.entry? facade = some ⟨g.model.nextId, k⟩ := by
  obtain ⟨facade, g₁, g', hrun, hstep, hev, he⟩ :=
    addNamedChild_steps hg hnode hk hname htaken hfree
  exact ⟨facade, g', hrun, (Evolves.single (.inl rfl) hstep).trans (hev.mono fun _ _ => .inr), he⟩

theorem addNamedChild_of_empty {kind : NodeKind} {name : String}
    (hnode : g.attachedNode id = .ok owner) (hname : Text.trim name = "") :
    addNamedChild id kind name g = .error (.mismatch id .emptyName) g := by
  rw [addNamedChild, bind_ok (ask_of_ok hnode)]
  simp only [if_pos hname]
  rfl

theorem addNamedChild_of_taken {kind : NodeKind} {name : String} {taken : List String}
    (hnode : g.attachedNode id = .ok owner) (hname : Text.trim name ≠ "")
    (htaken : g.model.childNames owner = .ok taken) (hin : Text.trim name ∈ taken) :
    addNamedChild id kind name g = .error (.mismatch id (.nameTaken (Text.trim name))) g := by
  rw [addNamedChild, bind_ok (ask_of_ok hnode)]
  simp only [if_neg hname]
  rw [bind_ok (ask_of_ok (ofModelResult_of_ok htaken))]
  simp only [if_pos hin]
  rfl

/-- The name of a child that was added was not taken, and the addition took these steps. -/
theorem steps_of_addNamedChild (hg : Managed g) {kind : NodeKind} {k : Facade.Kind}
    {name : String} {facade : FacadeId} (hnode : g.attachedNode id = .ok owner)
    (hk : Facade.Kind.ofNode? kind = some k) (h : addNamedChild id kind name g = .ok facade g') :
    ∃ taken g₁, g.model.childNames owner = .ok taken ∧ Text.trim name ∉ taken ∧
      Step g (.grow owner kind (Text.trim name)) g₁ ∧
      Evolves (fun _ c => c = .register g.model.nextId) g₁ g' ∧
      g'.facades.entry? facade = some ⟨g.model.nextId, k⟩ := by
  obtain ⟨-, p, -, -, hp, -⟩ := attachedNode_eq_ok_iff.mp hnode
  obtain ⟨taken, htaken⟩ := hg.forest.exists_childNames hp
  by_cases hname : Text.trim name = ""
  · cases (addNamedChild_of_empty hnode hname).symm.trans h
  · by_cases hin : Text.trim name ∈ taken
    · cases (addNamedChild_of_taken hnode hname htaken hin).symm.trans h
    · obtain ⟨_, g₁, _, hrun, hsteps⟩ := addNamedChild_steps hg hnode hk hname htaken hin
      obtain ⟨rfl, rfl⟩ := EStateM.Result.ok.inj (hrun.symm.trans h)
      exact ⟨taken, g₁, htaken, hin, hsteps⟩

theorem addNamedChild_atomic (hg : Managed g) (id : FacadeId) {kind : NodeKind} {k : Facade.Kind}
    (hk : Facade.Kind.ofNode? kind = some k)
    (hpart : kind.isFacet = false ∧ kind.isMember = false) (name : String) :
    Atomic (Lossless Steady) (addNamedChild id kind name) g := by
  cases hnode : g.attachedNode id with
  | error err => exact .refused err (by rw [addNamedChild, bind_error (ask_of_error hnode)])
  | ok owner =>
    by_cases hname : Text.trim name = ""
    · exact .refused _ (addNamedChild_of_empty hnode hname)
    · obtain ⟨-, p, -, -, hp, -⟩ := attachedNode_eq_ok_iff.mp hnode
      obtain ⟨taken, htaken⟩ := hg.forest.exists_childNames hp
      by_cases hfree : Text.trim name ∈ taken
      · exact .refused _ (addNamedChild_of_taken hnode hname htaken hfree)
      · obtain ⟨facade, g', hrun, hev, -⟩ := addNamedChild_eq hg hnode hk hname htaken hfree
        exact .of_ok hrun (hev.mono fun _ _ hc => hc.lossless hpart)

theorem addAlias_eq_addNamedChild {kind : Facade.Kind} (hkind : g.kind id = .ok kind)
    (hs : kind.supportsAliases = true) (name : String) :
    addAlias id name g = addNamedChild id .aliasName (Text.upperFirst (Text.trim name)) g := by
  rw [addAlias, bind_ok (ask_of_ok hkind)]
  simp only [hs, Bool.not_true, Bool.false_eq_true, if_false]

theorem addAlias_atomic (hg : Managed g) (id : FacadeId) (name : String) :
    Atomic (Lossless Steady) (addAlias id name) g := by
  cases hkind : g.kind id with
  | error err => exact .refused err (by rw [addAlias, bind_error (ask_of_error hkind)])
  | ok kind =>
    cases hs : kind.supportsAliases with
    | false =>
      refine .refused (.mismatch id .noAliases) ?_
      rw [addAlias, bind_ok (ask_of_ok hkind)]
      simp only [hs]
      rfl
    | true =>
      rw [Atomic, Succeeds, addAlias_eq_addNamedChild hkind hs]
      exact addNamedChild_atomic hg id (k := .aliasName) rfl ⟨rfl, rfl⟩ _

theorem addEnumValue_eq_addNamedChild {kind : Facade.Kind} (hkind : g.kind id = .ok kind)
    (hs : kind.isEnumeration = true) (literal : String) :
    addEnumValue id literal g = addNamedChild id .enumValue literal g := by
  rw [addEnumValue, bind_ok (ask_of_ok hkind)]
  simp only [hs, Bool.not_true, Bool.false_eq_true, if_false]

theorem addEnumValue_atomic (hg : Managed g) (id : FacadeId) (literal : String) :
    Atomic (Lossless Steady) (addEnumValue id literal) g := by
  cases hkind : g.kind id with
  | error err => exact .refused err (by rw [addEnumValue, bind_error (ask_of_error hkind)])
  | ok kind =>
    cases hs : kind.isEnumeration with
    | false =>
      refine .refused (.mismatch id .notAnEnumeration) ?_
      rw [addEnumValue, bind_ok (ask_of_ok hkind)]
      simp only [hs]
      rfl
    | true =>
      rw [Atomic, Succeeds, addEnumValue_eq_addNamedChild hkind hs]
      exact addNamedChild_atomic hg id (k := .valueLiteral) rfl ⟨rfl, rfl⟩ _

/-! ### Properties -/

/-- A container that takes a property is an attached node. -/
theorem attached_of_acceptingContainer? {kind : PropertyKind}
    (h : g.acceptingContainer? id kind = .ok (some container)) :
    ∃ p, g.model.node? container = some p ∧ p.attached = true := by
  obtain ⟨container?, -, h⟩ := Outcome.bind_eq_ok_iff.mp h
  cases container? with
  | none => cases h
  | some c =>
    obtain ⟨p, hp, h⟩ := Outcome.bind_eq_ok_iff.mp h
    have hp := Model.node_eq_ok_iff.mp (ofModelResult_eq_ok_iff.mp hp)
    split at h
    · next ha =>
      obtain rfl := Option.some.inj (Except.ok.inj h)
      exact ⟨p, hp, ha.1⟩
    · cases h

theorem container_of_addProperty {facade : FacadeId} {kind : PropertyKind} {name : Option String}
    (h : addProperty id kind name g = .ok facade g') :
    ∃ container, g.acceptingContainer? id kind = .ok (some container) := by
  rw [addProperty] at h
  obtain ⟨container?, _, hask, h⟩ := run_bind_eq_ok_iff.mp h
  obtain ⟨hc, rfl⟩ := ask_eq_ok_iff.mp hask
  cases container? with
  | none => cases h
  | some container => exact ⟨container, hc⟩

/-- A property grows below its container, mandatory if its kind is required. -/
def GrowsProperty (container : NodeId) (kind : PropertyKind) (node : NodeId) (c : Change) : Prop :=
  (∃ name, GrowsBelow container (.property kind) name node c) ∨
    kind.profile.required = true ∧ c = .mandate node true

/-- A property is added as soon as there is a container that takes it: the node grows, it is said
to be mandatory if its kind is required, and its facade is handed out. -/
theorem addProperty_steps (hg : Managed g) {kind : PropertyKind} {taken : List String}
    (hc : g.acceptingContainer? id kind = .ok (some container)) (name : Option String)
    (htaken : g.model.childNames container = .ok taken) :
    ∃ facade g₁ g₂ g', addProperty id kind name g = .ok facade g' ∧
      Step g (.grow container (.property kind)
        (Naming.uniqueName (requestedName kind name) taken)) g₁ ∧
      (kind.profile.required = false ∧ g₂ = g₁ ∨
        kind.profile.required = true ∧ Step g₁ (.mandate g.model.nextId true) g₂) ∧
      Evolves (fun _ c => c = .register g.model.nextId) g₂ g' ∧
      g'.facades.entry? facade = some ⟨g.model.nextId, .property kind⟩ := by
  obtain ⟨p, hp, ha⟩ := attached_of_acceptingContainer? hc
  obtain ⟨g₁, hadd, hstep, hnew⟩ := editModelWith_addChild hp ha (.property kind)
    (Naming.uniqueName (requestedName kind name) taken)
  have hg₁ := hstep.managed hg
  have hk₁ : g₁.model.facadeKind? g.model.nextId = some (.property kind) :=
    Model.facadeKind?_of_node? hnew
  rw [addProperty, bind_ok (ask_of_ok hc)]
  simp only
  rw [bind_ok (ask_of_ok (ofModelResult_of_ok htaken)), bind_ok hadd]
  cases hreq : kind.profile.required with
  | false =>
    obtain ⟨facade, g', hwrap, hev, he⟩ := facadeFor_eq hg₁ hk₁
    refine ⟨facade, g₁, g₁, g', ?_, hstep, .inl ⟨rfl, rfl⟩, hev, he⟩
    simp only [Bool.false_eq_true, if_false]
    exact hwrap
  | true =>
    have hmand := Step.mandate hnew true
    obtain ⟨facade, g', hwrap, hev, he⟩ :=
      facadeFor_eq (hmand.managed hg₁) (hmand.extends_.facadeKind? hk₁)
    refine ⟨facade, g₁, _, g', ?_, hstep, .inr ⟨rfl, hmand⟩, hev, he⟩
    simp only [if_true]
    rw [bind_ok (editModel_of_ok (Model.update_of_node? hnew _))]
    exact hwrap

theorem addProperty_eq (hg : Managed g) {kind : PropertyKind}
    (hc : g.acceptingContainer? id kind = .ok (some container)) (name : Option String) :
    ∃ facade g', addProperty id kind name g = .ok facade g' ∧
      Evolves (fun _ => GrowsProperty container kind g.model.nextId) g g' ∧
      g'.facades.entry? facade = some ⟨g.model.nextId, .property kind⟩ := by
  obtain ⟨p, hp, -⟩ := attached_of_acceptingContainer? hc
  obtain ⟨taken, htaken⟩ := hg.forest.exists_childNames hp
  obtain ⟨facade, g₁, g₂, g', hrun, hstep, hmand, hev, he⟩ := addProperty_steps hg hc name htaken
  refine ⟨facade, g', hrun, .trans ?_ (hev.mono fun _ _ hreg => .inl ⟨"", .inr hreg⟩), he⟩
  have hgrow : Evolves (fun _ => GrowsProperty container kind g.model.nextId) g g₁ :=
    .single (.inl ⟨_, .inl rfl⟩) hstep
  obtain ⟨-, rfl⟩ | ⟨hreq, hmand⟩ := hmand
  · exact hgrow
  · exact hgrow.step (.inr ⟨hreq, rfl⟩) hmand

theorem addProperty_atomic (hg : Managed g) (id : FacadeId) (kind : PropertyKind)
    (name : Option String) : Atomic (Lossless Steady) (addProperty id kind name) g := by
  cases hc : g.acceptingContainer? id kind with
  | error err => exact .refused err (by rw [addProperty, bind_error (ask_of_error hc)])
  | ok container? =>
    cases container? with
    | none =>
      refine .refused (.mismatch id (.noPropertiesOf kind)) ?_
      rw [addProperty, bind_ok (ask_of_ok hc)]
      rfl
    | some container =>
      obtain ⟨facade, g', hrun, hev, -⟩ := addProperty_eq hg hc name
      refine .of_ok hrun (hev.mono fun _ _ hc => ?_)
      obtain ⟨_, hc⟩ | ⟨-, rfl⟩ := hc
      · exact hc.lossless ⟨rfl, rfl⟩
      · exact ⟨⟨trivial, trivial⟩, nofun⟩

end Graph

end SchemaEditor
