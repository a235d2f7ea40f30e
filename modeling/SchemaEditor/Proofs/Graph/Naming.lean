import SchemaEditor.Proofs.Graph.Follow
import SchemaEditor.Proofs.Graph.Query

/-!
# Edits of names and texts

On a managed graph a facade is renamed, documented or made mandatory as soon as the conditions of
the edit hold, and nothing is touched where they do not. Renaming also renames the users whose
names follow: these are properties.
-/

namespace SchemaEditor

namespace Graph

open Model (Layered)
open Outcome (bind_ok bind_error)

variable {P : Graph → Change → Prop} {g g' : Graph} {id : FacadeId} {node provider u p : NodeId}
variable {r : Usage.Reference} {providers : List NodeId} {name : String} {rule : Naming.Rule}
variable {n : Node}

/-- A node is renamed. -/
def IsRename (_ : Graph) (c : Change) : Prop := ∃ node name, c = .rename node name

/-- A user is given the name that follows its type, which is one of the providers. -/
def Follows (providers : List NodeId) (g : Graph) (c : Change) : Prop :=
  ∃ user provider kind name, c = .rename user name ∧ provider ∈ providers ∧
    g.model.reference? ⟨user, .type⟩ = some provider ∧
    g.model.facadeKind? user = some kind ∧ g.model.followedName? kind provider = .ok (some name)

theorem Follows.isRename {c : Change} (h : Follows providers g c) : IsRename g c := by
  obtain ⟨user, _, _, name, rfl, _⟩ := h
  exact ⟨user, name, rfl⟩

theorem IsRename.lossless {c : Change} (h : IsRename g c) : Lossless Admitted g c := by
  obtain ⟨node, name, rfl⟩ := h
  exact ⟨trivial, nofun⟩

/-- Renaming leaves the references and the index alone. -/
theorem Evolves.of_isRename (h : Evolves P g g') (hP : ∀ g c, P g c → IsRename g c) :
    g'.usage = g.usage ∧ g'.facades = g.facades ∧
      ∀ r, g'.model.reference? r = g.model.reference? r := by
  refine h.keeps (I := fun k => k.usage = g.usage ∧ k.facades = g.facades ∧
    ∀ r, k.model.reference? r = g.model.reference? r) (fun hk hp hs => ?_) ⟨rfl, rfl, fun _ => rfl⟩
  obtain ⟨node, name, rfl⟩ := hP _ _ hp
  cases hs
  refine ⟨hk.1, hk.2.1, fun r => ?_⟩
  rw [← hk.2.2 r]
  exact Model.reference?_modifyNode _ _ (f := fun n => { n with name }) (fun _ => ⟨rfl, rfl, rfl⟩) r

theorem editModel_setName {n : Node} (hn : g.model.node? node = some n) (name : String) :
    editModel (fun m => m.setName node name) g =
      .ok ⟨⟩ { g with model := g.model.modifyNode node fun n => { n with name } } :=
  editModel_of_ok (Model.update_of_node? hn _)

/-! ### Names that follow -/

theorem Evolves.of_follows (h : Evolves (Follows providers) g g') : Evolves Admitted g g' :=
  h.mono fun _ _ hc => hc.isRename.lossless.1

/-- Names that follow their types stay up to date while others follow. -/
theorem Evolves.current (h : Evolves (Follows providers) g g') (hg : Managed g)
    (hl : Layered g.model) {u : NodeId} (hu : g.model.Current u) : g'.model.Current u := by
  refine (h.keeps (I := fun k => Managed k ∧ Layered k.model ∧ k.model.Current u)
    (fun {k c k'} hk hp hs => ?_) ⟨hg, hl, hu⟩).2.2
  obtain ⟨hk, hl, hu⟩ := hk
  refine ⟨hs.managed hk, hs.layered hp.isRename.lossless.1 hl, ?_⟩
  obtain ⟨user, provider, kind, name, rfl, -, href, hkind, hname⟩ := hp
  obtain ⟨n, hn, -, htype⟩ := Model.reference?_eq_some_iff.mp href
  rw [Model.facadeKind?_of_node? hn] at hkind
  cases hs
  exact .rename hk.forest hl hn htype hkind hname (.inr hu)

/-- A user of a type is renamed if a name follows for its kind. -/
theorem renameUser_of_kind {kind : Facade.Kind} {name? : Option String} (hslot : r.slot = .type)
    (hn : g.model.node? r.user = some n) (hkind : Facade.Kind.ofNode? n.kind = some kind)
    (hname : g.model.followedName? kind provider = .ok name?) :
    renameUser provider r g = (match name? with
      | none => return
      | some name => editModel fun m => m.setName r.user name : Edit PUnit) g := by
  rw [renameUser, if_pos hslot, bind_ok (ask_of_ok
    (ofModelResult_of_ok (Model.node_of_node? hn)))]
  simp only [hkind]
  rw [bind_ok (ask_of_ok (ofModelResult_of_ok hname))]
  cases name? <;> rfl

/-- A user of a type was gone through: it has been given the name that follows for its kind, or
none follows. -/
inductive Visited (provider u : NodeId) (g : Graph) : Graph → Prop
  | kept {n : Node} (hn : g.model.node? u = some n)
      (h : ∀ kind, Facade.Kind.ofNode? n.kind = some kind →
        g.model.followedName? kind provider = .ok none) : Visited provider u g g
  | named {n : Node} {kind : Facade.Kind} {name : String} (hn : g.model.node? u = some n)
      (hkind : Facade.Kind.ofNode? n.kind = some kind)
      (hname : g.model.followedName? kind provider = .ok (some name)) :
      Visited provider u g { g with model := g.model.modifyNode u fun n => { n with name } }

theorem Visited.evolves (h : Visited provider u g g')
    (hr : g.model.reference? ⟨u, .type⟩ = some provider) (hmem : provider ∈ providers) :
    Evolves (Follows providers) g g' := by
  cases h with
  | kept => exact .refl
  | @named n kind name hn hkind hname =>
    refine .single ?_ (.rename hn name)
    exact ⟨u, provider, kind, name, rfl, hmem, hr, (Model.facadeKind?_of_node? hn).trans hkind,
      hname⟩

/-- A user that was gone through is up to date with its type. -/
theorem Visited.current (h : Visited provider u g g') (hg : Managed g) (hl : Layered g.model)
    (hr : g.model.reference? ⟨u, .type⟩ = some provider) : g'.model.Current u := by
  obtain ⟨n, hn, -, htype⟩ := Model.reference?_eq_some_iff.mp hr
  cases h with
  | @kept n' hn' hnone =>
    obtain rfl := Option.some.inj (hn'.symm.trans hn)
    intro k p hk hp
    obtain rfl := Option.some.inj (hn.symm.trans hk)
    obtain rfl := Option.some.inj (htype.symm.trans hp)
    cases hkind : Facade.Kind.ofNode? n'.kind with
    | none =>
      intro c hc
      obtain ⟨typeName, htype⟩ := hg.forest.exists_names hc
      refine ⟨typeName, htype, fun property name hk => ?_⟩
      rw [hk] at hkind
      cases hkind
    | some kind => exact hg.forest.upToDate hkind (hnone kind hkind) fun _ he => by cases he
  | named hn' hkind hname =>
    obtain rfl := Option.some.inj (hn'.symm.trans hn)
    exact .rename hg.forest hl hn htype hkind hname (.inl rfl)

theorem renameUser_visited (hg : Managed g) (hr : g.model.reference? r = some provider)
    {p : Node} (hp : g.model.node? provider = some p) (hslot : r.slot = .type) :
    ∃ g', renameUser provider r g = .ok ⟨⟩ g' ∧ Visited provider r.user g g' := by
  obtain ⟨n, hn, -, -⟩ := Model.reference?_eq_some_iff.mp hr
  cases hkind : Facade.Kind.ofNode? n.kind with
  | none =>
    refine ⟨g, ?_, .kept hn fun kind hk => by cases hkind.symm.trans hk⟩
    rw [renameUser, if_pos hslot, bind_ok (ask_of_ok
      (ofModelResult_of_ok (Model.node_of_node? hn)))]
    simp only [hkind]
    rfl
  | some kind =>
    obtain ⟨name?, hname⟩ := hg.forest.exists_followedName? hp kind
    rw [renameUser_of_kind hslot hn hkind hname]
    cases name? with
    | none =>
      refine ⟨g, rfl, .kept hn fun kind' hk => ?_⟩
      obtain rfl := Option.some.inj (hkind.symm.trans hk)
      exact hname
    | some name => exact ⟨_, editModel_setName hn name, .named hn hkind hname⟩

section establishes

variable {T : NodeId → Graph → Prop}

/-- What a visit establishes of a user, and what later names that follow do not undo, holds of all
users of a type after they were renamed. -/
theorem renameUsers_establishes (hg : Managed g) (hmem : provider ∈ providers) {p : Node}
    (hp : g.model.node? provider = some p)
    (hT : ∀ u {k k'}, Evolves (Follows providers) g k → Evolves (Follows providers) k k' →
      T u k → T u k')
    (hvisit : ∀ u {k k'}, Evolves (Follows providers) g k →
      k.model.reference? ⟨u, .type⟩ = some provider → Visited provider u k k' → T u k') :
    ∃ g', renameUsers provider g = .ok ⟨⟩ g' ∧ Evolves (Follows providers) g g' ∧
      ∀ u, g.model.reference? ⟨u, .type⟩ = some provider → T u g' := by
  obtain ⟨g', hrun, hev, hdone⟩ := forM_establishes (g := g) (P := Follows providers)
    (f := renameUser provider) (l := g.usage.usersOf provider)
    (T := fun r k => r.slot = .type → T r.user k)
    (fun r _ _ hk hev ht hslot => hT r.user hk hev (ht hslot))
    fun r hr k hk => by
      obtain ⟨p', hp', -⟩ := hk.extends_.same hp
      have href : k.model.reference? r = some provider := by
        rw [(hk.of_isRename fun _ _ => Follows.isRename).2.2]
        exact hg.usage.mem_usersOf.mp hr
      by_cases hslot : r.slot = .type
      · obtain ⟨k', hrun, hvisited⟩ := renameUser_visited (hk.managed hg) href hp' hslot
        have href : k.model.reference? ⟨r.user, .type⟩ = some provider := hslot ▸ href
        exact ⟨k', hrun, hvisited.evolves href hmem, fun _ => hvisit r.user hk href hvisited⟩
      · refine ⟨k, ?_, .refl, fun h => absurd h hslot⟩
        rw [renameUser, if_neg hslot]
        rfl
  exact ⟨g', hrun, hev, fun u hu => hdone ⟨u, .type⟩ (hg.usage.mem_usersOf.mpr hu) rfl⟩

/-- A node and its facets: the providers that change their names with the node. -/
def namedBy (g : Graph) (node : NodeId) (n : Node) : List NodeId :=
  node :: n.children.filter fun c => (g.model.node? c).any fun child => child.kind.isFacet

theorem Managed.exists_of_namedBy (hg : Managed g) (hn : g.model.node? node = some n)
    (hp : p ∈ g.namedBy node n) : ∃ q, g.model.node? p = some q := by
  obtain rfl | hfacet := List.mem_cons.mp hp
  · exact ⟨n, hn⟩
  · obtain ⟨q, hq, -⟩ := hg.forest.owned hn (List.mem_filter.mp hfacet).1
    exact ⟨q, hq⟩

/-- What a visit establishes of a user, and what later names that follow do not undo, holds of all
users of a node and of its facets after the name of the node was passed on. -/
theorem propagateName_establishes (hg : Managed g) (hn : g.model.node? node = some n)
    (hT : ∀ u {k k'}, Evolves (Follows (g.namedBy node n)) g k →
      Evolves (Follows (g.namedBy node n)) k k' → T u k → T u k')
    (hvisit : ∀ p ∈ g.namedBy node n, ∀ u {k k'}, Evolves (Follows (g.namedBy node n)) g k →
      k.model.reference? ⟨u, .type⟩ = some p → Visited p u k k' → T u k') :
    ∃ g', propagateName node g = .ok ⟨⟩ g' ∧ Evolves (Follows (g.namedBy node n)) g g' ∧
      ∀ p ∈ g.namedBy node n, ∀ u, g.model.reference? ⟨u, .type⟩ = some p → T u g' := by
  obtain ⟨g', hrun, hev, hdone⟩ := forM_establishes (g := g)
    (P := Follows (g.namedBy node n)) (f := renameUsers) (l := g.namedBy node n)
    (T := fun p k => ∀ u, g.model.reference? ⟨u, .type⟩ = some p → T u k)
    (fun _ _ _ hk hev ht u hu => hT u hk hev (ht u hu))
    fun p hmem k hk => by
      obtain ⟨q, hq⟩ := hg.exists_of_namedBy hn hmem
      obtain ⟨q', hq', -⟩ := hk.extends_.same hq
      obtain ⟨k', hrun, hev, hdone⟩ := renameUsers_establishes (T := T) (hk.managed hg) hmem hq'
        (fun u _ _ hev => hT u (hk.trans hev)) fun u _ _ hev => hvisit p hmem u (hk.trans hev)
      refine ⟨k', hrun, hev, fun u hu => hdone u ?_⟩
      rwa [(hk.of_isRename fun _ _ => Follows.isRename).2.2]
  refine ⟨g', ?_, hev, hdone⟩
  rw [← hrun, propagateName]
  exact bind_ok (ask_of_ok (ofModelResult_of_ok (Model.node_of_node? hn)))

end establishes

/-- Afterwards no name is behind that of the node or of one of its facets. -/
theorem propagateName_eq (hg : Managed g) (hn : g.model.node? node = some n) :
    ∃ g', propagateName node g = .ok ⟨⟩ g' ∧ Evolves (Follows (g.namedBy node n)) g g' ∧
      (Layered g.model → ∀ p ∈ g.namedBy node n, ∀ u,
        g.model.reference? ⟨u, .type⟩ = some p → g'.model.Current u) := by
  obtain ⟨g', hrun, hev, hdone⟩ := propagateName_establishes hg hn
    (T := fun u k => Layered g.model → k.model.Current u)
    (fun u _ _ hk hev hu hl =>
      hev.current (hk.managed hg) (hk.of_follows.layered hl) (hu hl))
    fun p _ u _ _ hk hr hvisited hl =>
      hvisited.current (hk.managed hg) (hk.of_follows.layered hl) hr
  exact ⟨g', hrun, hev, fun hl p hp u hu => hdone p hp u hu hl⟩

/-! ### Edits -/

theorem namedBy_rename (g : Graph) (node : NodeId) (n : Node) (name : String) :
    Graph.namedBy { g with model := g.model.modifyNode node fun n => { n with name } } node
      { n with name } = g.namedBy node n := by
  unfold namedBy
  congr 2
  funext c
  rw [Model.node?_modifyNode]
  split
  · cases g.model.node? c <;> rfl
  · rfl

/-- A facade is renamed as soon as its name may be given and the name is not empty. Then the name is
passed on. -/
theorem setName_run (hnode : g.attachedNode id = .ok node) (hn : g.model.node? node = some n)
    (hrule : g.givenNameRule id = .ok rule) (hname : Text.trim name ≠ "") :
    setName id name g = (do propagateName node; return rule.apply (Text.trim name) : Edit String)
      { g with model := g.model.modifyNode node fun n =>
        { n with name := rule.apply (Text.trim name) } } := by
  rw [setName, bind_ok (ask_of_ok hnode), bind_ok (ask_of_ok hrule)]
  simp only [if_neg hname]
  rw [bind_ok (editModel_setName hn _)]

/-- After a new name, the names that follow it are up to date. -/
theorem setName_steps (hg : Managed g) (hnode : g.attachedNode id = .ok node)
    (hn : g.model.node? node = some n) (hrule : g.givenNameRule id = .ok rule)
    (hname : Text.trim name ≠ "") :
    ∃ g₁ g', setName id name g = .ok (rule.apply (Text.trim name)) g' ∧
      Step g (.rename node (rule.apply (Text.trim name))) g₁ ∧
      Evolves (Follows (g.namedBy node n)) g₁ g' ∧
      (Layered g₁.model → ∀ p ∈ g.namedBy node n, ∀ u,
        g₁.model.reference? ⟨u, .type⟩ = some p → g'.model.Current u) := by
  have hstep := Step.rename hn (rule.apply (Text.trim name))
  have hn' := (Model.node?_modifyNode_self g.model node
    fun n => { n with name := rule.apply (Text.trim name) }).trans (congrArg _ hn)
  obtain ⟨g', hrun, hev, hcurrent⟩ := propagateName_eq (hstep.managed hg) hn'
  rw [namedBy_rename] at hev hcurrent
  refine ⟨_, g', ?_, hstep, hev, hcurrent⟩
  rw [setName_run hnode hn hrule hname, bind_ok hrun]
  rfl

theorem setName_eq (hg : Managed g) (hnode : g.attachedNode id = .ok node)
    (hn : g.model.node? node = some n) (hrule : g.givenNameRule id = .ok rule)
    (hname : Text.trim name ≠ "") :
    ∃ g', setName id name g = .ok (rule.apply (Text.trim name)) g' ∧
      Evolves (fun g₁ c => c = .rename node (rule.apply (Text.trim name)) ∨
        Follows (g.namedBy node n) g₁ c) g g' := by
  obtain ⟨g₁, g', hrun, hstep, hev, -⟩ := setName_steps hg hnode hn hrule hname
  exact ⟨g', hrun, (Evolves.single (.inl rfl) hstep).trans (hev.mono fun _ _ => .inr)⟩

/-- A new name is refused before anything changes, or the conditions for it hold. -/
theorem setName_cases (g : Graph) (id : FacadeId) (name : String) :
    (∃ err, setName id name g = .error err g) ∨
      ∃ node n rule, g.attachedNode id = .ok node ∧ g.model.node? node = some n ∧
        g.givenNameRule id = .ok rule ∧ Text.trim name ≠ "" := by
  cases hnode : g.attachedNode id with
  | error err => exact .inl ⟨err, by rw [setName, bind_error (ask_of_error hnode)]⟩
  | ok node =>
    cases hrule : g.givenNameRule id with
    | error err =>
      refine .inl ⟨err, ?_⟩
      rw [setName, bind_ok (ask_of_ok hnode), bind_error (ask_of_error hrule)]
    | ok rule =>
      by_cases hname : Text.trim name = ""
      · refine .inl ⟨.mismatch id .emptyName, ?_⟩
        rw [setName, bind_ok (ask_of_ok hnode), bind_ok (ask_of_ok hrule)]
        simp only [if_pos hname]
        rfl
      · obtain ⟨-, n, -, -, hn, -⟩ := attachedNode_eq_ok_iff.mp hnode
        exact .inr ⟨node, n, rule, rfl, hn, rfl, hname⟩

theorem setName_atomic (hg : Managed g) (id : FacadeId) (name : String) :
    Atomic (Lossless Admitted) (setName id name) g := by
  obtain ⟨err, hrun⟩ | ⟨node, n, rule, hnode, hn, hrule, hname⟩ := setName_cases g id name
  · exact .refused err hrun
  · obtain ⟨g', hrun, hev⟩ := setName_eq hg hnode hn hrule hname
    refine .of_ok hrun (hev.mono fun _ _ hc => IsRename.lossless ?_)
    exact hc.elim (fun hc => ⟨_, _, hc⟩) Follows.isRename

theorem setDocumentation_eq (hnode : g.attachedNode id = .ok node) (field : DocField)
    (text : String) :
    ∃ g', setDocumentation id field text g = .ok ⟨⟩ g' ∧
      Step g (.document node (field.set text)) g' := by
  obtain ⟨-, n, -, -, hn, -⟩ := attachedNode_eq_ok_iff.mp hnode
  refine ⟨_, ?_, .document hn (field.set text)⟩
  rw [setDocumentation, bind_ok (ask_of_ok hnode)]
  exact editModel_of_ok (Model.update_of_node? hn _)

theorem setDocumentation_atomic (g : Graph) (id : FacadeId) (field : DocField) (text : String) :
    Atomic (Lossless Steady) (setDocumentation id field text) g := by
  cases hnode : g.attachedNode id with
  | error err => exact .refused err (by rw [setDocumentation, bind_error (ask_of_error hnode)])
  | ok node =>
    obtain ⟨g', hrun, hstep⟩ := setDocumentation_eq hnode field text
    have hdocument : Lossless Steady g (.document node (field.set text)) :=
      ⟨⟨trivial, trivial⟩, nofun⟩
    exact .of_ok hrun (.single hdocument hstep)

theorem setMandatory_eq {kind : Facade.Kind} (hnode : g.attachedNode id = .ok node)
    (hkind : g.kind id = .ok kind) (hprop : kind.isProperty = true) (mandatory : Bool) :
    ∃ g', setMandatory id mandatory g = .ok ⟨⟩ g' ∧ Step g (.mandate node mandatory) g' := by
  obtain ⟨-, n, -, -, hn, -⟩ := attachedNode_eq_ok_iff.mp hnode
  refine ⟨_, ?_, .mandate hn mandatory⟩
  rw [setMandatory, bind_ok (ask_of_ok hnode), bind_ok (ask_of_ok hkind)]
  simp only [hprop, Bool.not_true, Bool.false_eq_true, if_false]
  exact editModel_of_ok (Model.update_of_node? hn _)

theorem setMandatory_atomic (g : Graph) (id : FacadeId) (mandatory : Bool) :
    Atomic (Lossless Steady) (setMandatory id mandatory) g := by
  cases hnode : g.attachedNode id with
  | error err => exact .refused err (by rw [setMandatory, bind_error (ask_of_error hnode)])
  | ok node =>
    obtain ⟨e, n, he, -⟩ := attachedNode_eq_ok_iff.mp hnode
    have hkind := kind_of_entry he
    cases hprop : e.kind.isProperty with
    | false =>
      refine .refused (.mismatch id .notAProperty) ?_
      rw [setMandatory, bind_ok (ask_of_ok hnode), bind_ok (ask_of_ok hkind)]
      simp only [hprop]
      rfl
    | true =>
      obtain ⟨g', hrun, hstep⟩ := setMandatory_eq hnode hkind hprop mandatory
      have hmandate : Lossless Steady g (.mandate node mandatory) := ⟨⟨trivial, trivial⟩, nofun⟩
      exact .of_ok hrun (.single hmandate hstep)

end Graph

end SchemaEditor
