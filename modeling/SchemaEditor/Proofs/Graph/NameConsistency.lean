import SchemaEditor.Proofs.Graph.Call
import SchemaEditor.Proofs.Snapshot.Faithful

/-!
# Names that follow types are never stale

Over the model of a snapshot every call keeps names consistent. Two calls touch names or types of
what is there: a type that is assigned suits its user, which gets the name that follows; and a
renamed node passes its name on to its users and to those of its facets. What is renamed on the way
are properties, which are no types, so that one pass is enough. All other calls at most clear types.
-/

namespace SchemaEditor

namespace Model

/-- No detached node has a type. -/
def Idle (m : Model) : Prop := ∀ id n, m.node? id = some n → n.attached = false → n.typeRef = none

theorem Idle.reference? {m : Model} {u p : NodeId} {n : Node} (h : Idle m)
    (hn : m.node? u = some n) (hp : n.typeRef = some p) : m.reference? ⟨u, .type⟩ = some p := by
  cases ha : n.attached with
  | true => exact reference?_eq_some_iff.mpr ⟨n, hn, ha, hp⟩
  | false => cases (h u n hn ha).symm.trans hp

end Model

namespace Graph

open Model (Idle KeepsNames Layered NameConsistent NamedAfter Tidy)
open Outcome (bind_eq_ok_iff)

variable {g g' : Graph} {c : Change} {x u p node : NodeId} {n n' : Node} {id : FacadeId}

/-! ### What a step does to a node -/

/-- What may become of the name and the type of a node in a change. -/
structure Change.Turns (c : Change) (x : NodeId) (n n' : Node) : Prop where
  name : n'.name = n.name ∨ ∃ name, c = .rename x name
  type : n'.typeRef = n.typeRef ∨ n'.typeRef = none ∨ ∃ p, c = .point ⟨x, .type⟩ p
  detached : n'.attached = false → n.attached = false ∧ n'.typeRef = n.typeRef ∨ n'.typeRef = none

/-- A node after a step was there before, or it is new and has no type. -/
theorem Step.node_cases (h : Step g c g') (hn' : g'.model.node? x = some n') :
    (g.model.node? x = none ∧ n'.typeRef = none) ∨
      ∃ n, g.model.node? x = some n ∧ c.Turns x n n' := by
  have unchanged {n : Node} (hn : g.model.node? x = some n) (hname : n'.name = n.name)
      (htype : n'.typeRef = n.typeRef) (ha : n'.attached = n.attached) :
      ∃ n, g.model.node? x = some n ∧ c.Turns x n n' :=
    ⟨n, hn, .inl hname, .inl htype, fun hna => .inl ⟨ha ▸ hna, htype⟩⟩
  cases h with
  | register => exact .inr (unchanged hn' rfl rfl rfl)
  | rename _ name =>
    obtain ⟨n, rfl, hn, rfl⟩ | ⟨-, hn⟩ := Model.modifyNode_cases hn'
    · exact .inr ⟨n, hn, .inr ⟨name, rfl⟩, .inl rfl, fun ha => .inl ⟨ha, rfl⟩⟩
    · exact .inr (unchanged hn rfl rfl rfl)
  | document | mandate =>
    obtain ⟨n, -, hn, rfl⟩ | ⟨-, hn⟩ := Model.modifyNode_cases hn'
    · exact .inr (unchanged hn rfl rfl rfl)
    · exact .inr (unchanged hn rfl rfl rfl)
  | @grow owner q hp _ kind name =>
    obtain ⟨hx, rfl⟩ | ⟨rfl, rfl⟩ | ⟨-, hn⟩ := Model.appendChild_cases hp hn'
    · exact .inl ⟨hx ▸ Model.node?_nextId .., rfl⟩
    · exact .inr (unchanged hp rfl rfl rfl)
    · exact .inr (unchanged hn rfl rfl rfl)
  | @point r m p _ _ hm hma =>
    obtain ⟨n, rfl, hn, rfl⟩ | ⟨-, hn⟩ := Model.modifyNode_cases hn'
    · obtain rfl := Option.some.inj (hm.symm.trans hn)
      obtain ⟨user, slot⟩ := r
      cases slot with
      | base => exact .inr (unchanged hm rfl rfl rfl)
      | type =>
        refine .inr ⟨m, hm, .inl rfl, .inr (.inr ⟨p, rfl⟩), fun ha => ?_⟩
        cases hma.symm.trans ha
    · exact .inr (unchanged hn rfl rfl rfl)
  | @clear r m hm hma =>
    obtain ⟨n, rfl, hn, rfl⟩ | ⟨-, hn⟩ := Model.modifyNode_cases hn'
    · obtain ⟨user, slot⟩ := r
      cases slot with
      | base => exact .inr (unchanged hn rfl rfl rfl)
      | type => exact .inr ⟨n, hn, .inl rfl, .inr (.inl rfl), fun _ => .inr rfl⟩
    · exact .inr (unchanged hn rfl rfl rfl)
  | @detach node m hm hma hr =>
    obtain ⟨n, hn, rfl⟩ := Model.without_cases hn'
    refine .inr ⟨n, hn, .inl rfl, .inl rfl, fun ha => ?_⟩
    cases hna : n.attached with
    | false => exact .inl ⟨rfl, rfl⟩
    | true =>
      -- The node is detached by this step, so it has no reference any more.
      have hx : x ∈ g.model.preorder node := by simpa [Node.cut, hna] using ha
      refine .inr (Option.eq_none_iff_forall_ne_some.mpr fun p hp => (hr ⟨x, .type⟩ p ?_).1 hx)
      exact Model.reference?_eq_some_iff.mpr ⟨n, hn, hna, hp⟩

/-- Only renaming gives a node another name. -/
theorem Step.keepsNames (h : Step g c g') (hc : ∀ node name, c ≠ .rename node name) :
    KeepsNames g.model g'.model := by
  intro x n hn
  obtain ⟨n', hn', hkind, howner, -⟩ := h.extends_.same hn
  refine ⟨n', hn', hkind, howner, ?_⟩
  obtain ⟨hnone, -⟩ | ⟨k, hk, hturns⟩ := h.node_cases hn'
  · cases hnone.symm.trans hn
  · obtain rfl := Option.some.inj (hk.symm.trans hn)
    obtain hname | ⟨name, hrename⟩ := hturns.name
    · exact hname
    · exact absurd hrename (hc x name)

/-- A type that is there after a step was there before, unless it was just assigned. -/
theorem Step.exists_typed (h : Step g c g') (hc : ∀ p, c ≠ .point ⟨x, .type⟩ p)
    (hn' : g'.model.node? x = some n') (hp : n'.typeRef = some p) :
    ∃ n, g.model.node? x = some n ∧ n.typeRef = some p := by
  obtain ⟨-, hnone⟩ | ⟨n, hn, hturns⟩ := h.node_cases hn'
  · cases hp.symm.trans hnone
  · obtain hsame | hnone | ⟨q, hpoint⟩ := hturns.type
    · exact ⟨n, hn, hsame ▸ hp⟩
    · cases hp.symm.trans hnone
    · exact absurd hpoint (hc q)

/-! ### What graphs over snapshots keep -/

theorem Step.idle (h : Step g c g') (hi : Idle g.model) : Idle g'.model := by
  intro x n' hn' ha
  obtain ⟨-, hnone⟩ | ⟨n, hn, hturns⟩ := h.node_cases hn'
  · exact hnone
  · obtain ⟨hna, hsame⟩ | hnone := hturns.detached ha
    · exact hsame.trans (hi x n hn hna)
    · exact hnone

/-- What a graph over the model of a snapshot keeps in every call. -/
structure Orderly (g : Graph) : Prop where
  managed : Managed g
  tidy : Tidy g.model
  layered : Layered g.model
  idle : Idle g.model

namespace Orderly

theorem step (h : Orderly g) (hs : Step g c g') (hc : Admitted g c) : Orderly g' :=
  ⟨hs.managed h.managed, hs.tidy h.tidy, hs.layered hc h.layered, hs.idle h.idle⟩

theorem of_evolves (h : Orderly g) (hev : Evolves Admitted g g') : Orderly g' :=
  hev.keeps (fun h hc hs => h.step hs hc) h

theorem after (h : Orderly g) (calls : List Call) : Orderly (g.after calls) :=
  h.of_evolves (evolves_after h.managed calls)

/-- A type that is not among the nodes that change their names with a node is not named after it. -/
theorem not_namedAfter (h : Orderly g) {r : Usage.Reference} (hr : g.model.reference? r = some p)
    (hn : g.model.node? node = some n) (hp : p ∉ g.namedBy node n) {cls : ProviderClass}
    (hcls : g.model.providerClass? p = some cls) : ¬ NamedAfter g.model node p := by
  intro hafter
  obtain ⟨k, -, hk, -, rfl | ⟨hfacet, howner, -⟩⟩ := h.layered.of_namedAfter hcls hafter
  · exact hp List.mem_cons_self
  · obtain ⟨k', hk', ha⟩ := h.tidy r p hr
    obtain rfl := Option.some.inj (hk'.symm.trans hk)
    obtain ⟨o, ho, -, hchild⟩ := h.managed.forest.listed hk ha howner
    obtain rfl := Option.some.inj (ho.symm.trans hn)
    exact hp (List.mem_cons_of_mem _ (List.mem_filter.mpr ⟨hchild, by simp [hk, hfacet]⟩))

end Orderly

/-! ### Calls -/

/-- A step that gives no node another name, and no type to this one, leaves its type suitable and
its name up to date. -/
theorem Step.upToDate (h : Step g c g') (hm : NameConsistent g.model)
    (hrename : ∀ node name, c ≠ .rename node name) (hpoint : ∀ p, c ≠ .point ⟨u, .type⟩ p)
    (hn' : g'.model.node? u = some n') (hp : n'.typeRef = some p) :
    g'.model.Joins n' p ∧ g'.model.UpToDate n' p := by
  have hnames := h.keepsNames hrename
  obtain ⟨n, hn, htype⟩ := h.exists_typed hpoint hn' hp
  obtain ⟨hj, hup⟩ := hm u n p hn htype
  obtain ⟨k, hk, hkind, -, hname⟩ := hnames u n hn
  obtain rfl := Option.some.inj (hk.symm.trans hn')
  exact ⟨hj.of_extends h.extends_ hkind, hup.of_keepsNames h.extends_ hnames hj hkind hname⟩

/-- Steps that give no node another name or type keep names consistent. -/
theorem Step.nameConsistent (h : Step g c g') (hc : Steady g c)
    (hm : NameConsistent g.model) : NameConsistent g'.model := by
  intro u n' p hn' hp
  apply h.upToDate hm _ _ hn' hp
  · rintro node name rfl
    exact hc.2
  · rintro p rfl
    cases hc.2

theorem Evolves.nameConsistent (h : Evolves Steady g g') (hm : NameConsistent g.model) :
    NameConsistent g'.model :=
  h.keeps (I := fun k => NameConsistent k.model) (fun hk hc hs => hs.nameConsistent hc hk) hm

theorem nameFollowsType_eq_false_iff {e : Facade.Entry} (hg : Managed g)
    (he : g.facades.entry? id = some e) :
    g.nameFollowsType id = .ok false ↔ ∀ p, g.model.reference? ⟨e.node, .type⟩ = some p →
      g.model.followedName? e.kind p = .ok none := by
  rw [nameFollowsType, nodeOf_of_entry he, Outcome.ok_bind, hg.usage.assigned]
  cases g.model.reference? ⟨e.node, .type⟩ with
  | none => exact iff_of_true rfl nofun
  | some p =>
    have hsome : (∀ q, some p = some q → g.model.followedName? e.kind q = .ok none) ↔
        g.model.followedName? e.kind p = .ok none := by
      simp
    rw [hsome, kind_of_entry he]
    simp only [Outcome.ok_bind]
    rcases g.model.followedName? e.kind p with err | _ | name
    · exact iff_of_false nofun nofun
    · exact iff_of_true rfl rfl
    · exact iff_of_false nofun nofun

/-- A name may be given under the rule of its kind, as long as it follows no type. -/
theorem givenNameRule_eq_ok_iff {rule : Naming.Rule} (hg : Managed g) :
    g.givenNameRule id = .ok rule ↔ ∃ e, g.facades.entry? id = some e ∧
      e.kind.naming? = some rule ∧ rule ≠ .fromType ∧
      ∀ p, g.model.reference? ⟨e.node, .type⟩ = some p →
        g.model.followedName? e.kind p = .ok none := by
  constructor
  · intro h
    obtain ⟨kind, hkind, h⟩ := bind_eq_ok_iff.mp h
    obtain ⟨e, he, hkind⟩ := bind_eq_ok_iff.mp hkind
    obtain rfl := Except.ok.inj hkind
    rw [entry_eq_ok_iff] at he
    split at h
    · cases h
    · cases h
    · next rule' hfromType hnaming =>
      obtain ⟨follows, hfollows, h⟩ := bind_eq_ok_iff.mp h
      cases follows with
      | true => cases h
      | false =>
        obtain rfl := Except.ok.inj h
        exact ⟨e, he, hnaming, hfromType, (nameFollowsType_eq_false_iff hg he).mp hfollows⟩
  · rintro ⟨e, he, hnaming, hrule, hfree⟩
    rw [givenNameRule, kind_of_entry he, Outcome.ok_bind, hnaming,
      (nameFollowsType_eq_false_iff hg he).mpr hfree]
    cases rule with
    | fromType => exact absurd rfl hrule
    | _ => rfl

/-- The name of a node that may be renamed does not follow its type. -/
theorem followedName?_of_givenNameRule {rule : Naming.Rule} (hg : Managed g)
    (hnode : g.attachedNode id = .ok node) (hrule : g.givenNameRule id = .ok rule)
    (hp : g.model.reference? ⟨node, .type⟩ = some p) :
    ∃ kind, g.model.facadeKind? node = some kind ∧ g.model.followedName? kind p = .ok none := by
  obtain ⟨e, n, he, rfl, hn, ha⟩ := attachedNode_eq_ok_iff.mp hnode
  obtain ⟨e', he', -, -, hfree⟩ := (givenNameRule_eq_ok_iff hg).mp hrule
  obtain rfl := Option.some.inj (he.symm.trans he')
  exact ⟨e.kind, hg.facades.known he, hfree p hp⟩

/-- While names follow, those that were up to date stay so; the others have to be brought up to
date. -/
theorem Evolves.nameConsistent_of_follows {providers : List NodeId} (hg : Orderly g)
    (hev : Evolves (Follows providers) g g')
    (hm : ∀ u n p, g.model.node? u = some n → n.typeRef = some p →
      g.model.Joins n p ∧ (g.model.UpToDate n p ∨ g'.model.Current u)) :
    NameConsistent g'.model := by
  intro u n' p hn' hp
  have href := (hg.of_evolves hev.of_follows).idle.reference? hn' hp
  rw [(hev.of_isRename fun _ _ => Follows.isRename).2.2] at href
  obtain ⟨n, hn, -, htype⟩ := Model.reference?_eq_some_iff.mp href
  obtain ⟨k, hk, hkind, -⟩ := hev.extends_.same hn
  obtain rfl := Option.some.inj (hk.symm.trans hn')
  obtain ⟨hj, hcurrent⟩ := hm u n p hn htype
  refine ⟨hj.of_extends hev.extends_ hkind, ?_⟩
  obtain hup | hcurrent := hcurrent
  · refine hev.current hg.managed hg.layered (fun n₂ p₂ hn₂ hp₂ => ?_) k p hk hp
    obtain rfl := Option.some.inj (hn.symm.trans hn₂)
    obtain rfl := Option.some.inj (htype.symm.trans hp₂)
    exact hup
  · exact hcurrent k p hk hp

/-- A name is given to a node; only names that follow it or its facets can be out of date then. -/
theorem Step.upToDate_of_rename {rule : Naming.Rule} {newName : String} {u₀ n₀ : Node}
    (hs : Step g (.rename node newName) g') (hg : Orderly g)
    (hnode : g.attachedNode id = .ok node) (hrule : g.givenNameRule id = .ok rule)
    (hn₀ : g.model.node? node = some n₀) (hu₀ : g.model.node? u = some u₀)
    (hp : u₀.typeRef = some p) (hup : g.model.UpToDate u₀ p) (hmem : p ∉ g.namedBy node n₀)
    (hn : g'.model.node? u = some n) : g'.model.UpToDate n p := by
  have href := hg.idle.reference? hu₀ hp
  have hafter (cls) (hcls : g.model.providerClass? p = some cls) :=
    hg.not_namedAfter href hn₀ hmem hcls
  cases hs
  refine Model.UpToDate.rename ?_ hafter _
  rw [Model.node?_modifyNode, hu₀] at hn
  split at hn
  · -- The name of the node does not follow its type, or it could not be given.
    next hnode' =>
    subst hnode'
    obtain ⟨kind, hfacade, hnone⟩ := followedName?_of_givenNameRule hg.managed hnode hrule href
    rw [Model.facadeKind?_of_node? hu₀] at hfacade
    obtain rfl := Option.some.inj hn
    exact hg.managed.forest.upToDate hfacade hnone fun _ he => by cases he
  · obtain rfl := Option.some.inj hn
    exact hup

theorem setName_nameConsistent (hg : Orderly g) (hm : NameConsistent g.model) (id : FacadeId)
    (name : String) : NameConsistent (left (setName id name) g).model := by
  obtain ⟨err, hrun⟩ | ⟨node, n₀, rule, hnode, hn₀, hrule, hname⟩ := setName_cases g id name
  · rwa [left, hrun]
  · obtain ⟨g₁, g', hrun, hstep, hev, hcurrent⟩ :=
      setName_steps hg.managed hnode hn₀ hrule hname
    have hg₁ : Orderly g₁ := hg.step hstep trivial
    rw [left, hrun]
    refine hev.nameConsistent_of_follows hg₁ fun u n p hn hp => ?_
    have hother (p' : NodeId) :
        Change.rename node (rule.apply (Text.trim name)) ≠ .point ⟨u, .type⟩ p' := by
      rintro ⟨⟩
    obtain ⟨u₀, hu₀, htype⟩ := hstep.exists_typed hother hn hp
    obtain ⟨k, hk, hkind, -⟩ := hstep.extends_.same hu₀
    obtain rfl := Option.some.inj (hk.symm.trans hn)
    obtain ⟨hj, hup⟩ := hm u u₀ p hu₀ htype
    refine ⟨hj.of_extends hstep.extends_ hkind, ?_⟩
    by_cases hmem : p ∈ g.namedBy node n₀
    · exact .inr (hcurrent hg₁.layered p hmem u (hg₁.idle.reference? hn hp))
    · exact .inl (hstep.upToDate_of_rename hg hnode hrule hn₀ hu₀ htype hup hmem hn)

theorem assignType_nameConsistent (hg : Orderly g) (hm : NameConsistent g.model)
    (user provider : FacadeId) : NameConsistent (left (assignType user provider) g).model := by
  cases hcan : g.canAssign user provider with
  | error err => rwa [left, assignType, Outcome.bind_error (ask_of_error hcan)]
  | ok =>
    obtain ⟨⟨node, hnode⟩, q, hq⟩ := attached_of_canAssign hcan
    obtain ⟨-, n₀, -, -, hn₀, ha⟩ := attachedNode_eq_ok_iff.mp hnode
    obtain ⟨g₁, g', hrun, hstep, hev, hcurrent⟩ := assignType_steps hg.managed hcan hnode hq
    have hadmitted : Admitted g (.point ⟨node, .type⟩ q) := by
      intro hslot
      cases hslot
    have hg₁ : Orderly g₁ := hg.step hstep hadmitted
    rw [left, hrun]
    refine hev.nameConsistent_of_follows hg₁ fun u n p hn hp => ?_
    by_cases hu : u = node
    · subst hu
      have href := hg₁.idle.reference? hn hp
      have hpq : p = q := by
        cases hstep
        rw [Model.reference?_write (r := ⟨u, .type⟩) hn₀ ha, Function.update_self] at href
        exact (Option.some.inj href).symm
      subst hpq
      obtain ⟨k, hk, hkind, -⟩ := hstep.extends_.same hn₀
      obtain rfl := Option.some.inj (hk.symm.trans hn)
      have hj := joins_of_canAssign hg.managed hcan hnode hq hn₀
      exact ⟨hj.of_extends hstep.extends_ hkind, .inr (hcurrent hg₁.layered)⟩
    · refine (hstep.upToDate hm ?_ ?_ hn hp).imp_right .inl
      · rintro _ _ ⟨⟩
      · rintro p' ⟨⟩
        exact hu rfl

/-- Names stay consistent in every call. -/
theorem Call.nameConsistent (hg : Orderly g) (hm : NameConsistent g.model) (c : Call) :
    NameConsistent (c.apply g).model := by
  have steady (hc : ¬ c.IsNaming) : NameConsistent (c.apply g).model :=
    (evolves_of_not_isNaming hg.managed hc).nameConsistent hm
  cases c with
  | setName id name => exact setName_nameConsistent hg hm id name
  | assignType user provider => exact assignType_nameConsistent hg hm user provider
  | _ => exact steady id

theorem after_nameConsistent (hg : Orderly g) (hm : NameConsistent g.model) (calls : List Call) :
    NameConsistent (g.after calls).model := by
  induction calls generalizing g with
  | nil => exact hm
  | cons c calls ih =>
    exact ih (hg.of_evolves (c.evolves hg.managed)) (c.nameConsistent hg hm)

end Graph

namespace Snapshot

open SchemaEditor.Graph (Orderly)
open Model (NameConsistent)

/-- Nothing in a snapshot is given a type. -/
def Untyped (s : Snapshot) : Prop := ∀ d ∈ s.declarations, d.typeKey = none

variable {s : Snapshot} {loaded : Loaded}

theorem orderly_of_load (h : s.load = .ok loaded) (v : Versioning) :
    ∃ g, Graph.ofModel loaded.model v = .ok g ∧ g.model = loaded.model ∧ Orderly g := by
  have hw := whole_of_load h
  obtain ⟨x, hgraph, hg⟩ := Graph.exists_ofModel hw.forest v
  refine ⟨_, hgraph, rfl, hg, hw.tidy, layered_of_load h, fun id n hn ha => ?_⟩
  cases ha.symm.trans (hw.attached hn)

theorem nameConsistent_of_untyped (h : s.load = .ok loaded) (hs : s.Untyped) :
    NameConsistent loaded.model := by
  intro u n p hn hp
  obtain ⟨d, hd, htyped⟩ := exists_typed_of_load h hn hp
  exact absurd (hs d hd) htyped

/-- In a graph over the model of a snapshot every call keeps names consistent, whether the call is
refused or not. If the snapshot has no types, the names are consistent from the start, and so they
are after any calls. -/
theorem names_follow_types (h : s.load = .ok loaded) (v : Versioning) :
    ∃ g, Graph.ofModel loaded.model v = .ok g ∧ g.model = loaded.model ∧
      (∀ calls (c : Graph.Call), NameConsistent (g.after calls).model →
        NameConsistent (c.apply (g.after calls)).model) ∧
      (s.Untyped → NameConsistent loaded.model ∧
        ∀ calls, NameConsistent (g.after calls).model) := by
  obtain ⟨g, hgraph, hmodel, hg⟩ := orderly_of_load h v
  refine ⟨g, hgraph, hmodel, fun calls c hm => c.nameConsistent (hg.after calls) hm, fun hs => ?_⟩
  have hm := nameConsistent_of_untyped h hs
  exact ⟨hm, fun calls => Graph.after_nameConsistent hg (hmodel ▸ hm) calls⟩

/-- An order with a reference and an element that have no types yet. -/
def untypedOrder : Snapshot :=
  shop
    [.object "Money" none [],
    .object "Order" none
      [⟨.property .elementRef, "amount", none, true, ""⟩,
        ⟨.property .element, "total", none, true, ""⟩]]

/-- The reference gets an object as its type and the element gets the summary of the object; then
the object is renamed. -/
def renamedMoney : List Graph.Call :=
  [.facadeFor ⟨8⟩, .facadeFor ⟨9⟩, .facadeFor ⟨0⟩, .facadeFor ⟨2⟩, .assignType ⟨0⟩ ⟨2⟩,
    .assignType ⟨1⟩ ⟨3⟩, .setName ⟨2⟩ "price"]

theorem names_follow_types_untypedOrder :
    ∃ loaded g, untypedOrder.load = .ok loaded ∧ untypedOrder.Untyped ∧
      Graph.ofModel loaded.model (.chain none) = .ok g ∧
      [NodeId.mk 8, ⟨9⟩].map (fun id => ((g.after renamedMoney).model.node? id).map (·.name)) =
        [some "PriceRef", some "Price_Summary"] ∧
      ∀ calls, NameConsistent (g.after calls).model := by
  obtain ⟨loaded, h, hp⟩ := exists_loaded (s := untypedOrder) (p := fun loaded =>
    match Graph.ofModel loaded.model (.chain none) with
    | .ok g => decide ([NodeId.mk 8, ⟨9⟩].map (fun id =>
        ((g.after renamedMoney).model.node? id).map (·.name)) =
          [some "PriceRef", some "Price_Summary"])
    | .error _ => false) (by decide +kernel)
  have huntyped : untypedOrder.Untyped := by
    unfold Untyped
    decide
  obtain ⟨g, hgraph, -, -, hconsistent⟩ := names_follow_types h (.chain none)
  simp only [hgraph, decide_eq_true_eq] at hp
  exact ⟨loaded, g, h, huntyped, hgraph, hp, (hconsistent huntyped).2⟩

end Snapshot

end SchemaEditor
