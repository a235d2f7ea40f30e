import SchemaEditor.Proofs.Model.Furnishing

/-!
# Objects with their standard facets

Business, core and choice objects are created with one facet in each of their standard roles.
`Strips` says which operations take such a facet from an object, put a second one next to it, or
make an object without facets; an object that no operation stripped has exactly its standard facets
as long as it is attached.
-/

namespace SchemaEditor

theorem NodeKind.standardFacets_of_not_isMember {kind : NodeKind} (h : kind.isMember = false) :
    kind.standardFacets = [] := by
  cases kind with
  | member => cases h
  | _ => rfl

namespace Model

variable {m m' : Model} {x c id owner : NodeId} {n p : Node} {role : FacetRole}

/-- An attached facet of an object in a role. -/
def IsFacetOf (m : Model) (x : NodeId) (role : FacetRole) (c : NodeId) : Prop :=
  ∃ k, m.node? c = some k ∧ k.owner = some x ∧ k.kind = .facet role ∧ k.attached = true

/-- The roles of the facets that belong to a node of its kind. -/
def standardRoles (m : Model) (x : NodeId) : List FacetRole :=
  ((m.node? x).map fun n => n.kind.standardFacets).getD []

/-- As long as it is attached, a node has one facet in each of its standard roles. -/
def Equipped (m : Model) (x : NodeId) : Prop :=
  m.IsAttached x → ∀ role ∈ m.standardRoles x, ∃! c, m.IsFacetOf x role c

theorem standardRoles_of_node? (hn : m.node? x = some n) :
    m.standardRoles x = n.kind.standardFacets := by
  rw [standardRoles, hn]
  rfl

theorem Extends.standardRoles_eq (h : Extends m m') (hn : m.node? x = some n) :
    m'.standardRoles x = m.standardRoles x := by
  obtain ⟨n', hn', hkind, -⟩ := h.same hn
  rw [standardRoles_of_node? hn, standardRoles_of_node? hn', hkind]

theorem Forest.mem_children_of_isFacetOf (hf : Forest m) (hn : m.node? x = some n)
    (h : m.IsFacetOf x role c) : c ∈ n.children := by
  obtain ⟨k, hk, ho, -, hka⟩ := h
  obtain ⟨p, hp, -, hmem⟩ := hf.listed hk hka ho
  obtain rfl := Option.some.inj (hn.symm.trans hp)
  exact hmem

namespace Equipped

/-- A node without standard roles. -/
theorem of_standardRoles (h : m.standardRoles x = []) : m.Equipped x := by
  intro _ role hrole
  rw [h] at hrole
  cases hrole

/-- A node that was there: none is attached again, none of its facets is detached, and it gets no
other one. -/
theorem of_extends (h : m.Equipped x) (hm : Extends m m') (hn : m.node? x = some n)
    (hback : ∀ {y k}, m.node? y = some k → m'.IsAttached y → k.attached = true)
    (hkept : ∀ {role c}, m'.IsAttached x → role ∈ m.standardRoles x → m.IsFacetOf x role c →
      m'.IsAttached c)
    (hnew : ∀ {role c}, role ∈ m.standardRoles x → m'.IsFacetOf x role c →
      ∃ k, m.node? c = some k) : m'.Equipped x := by
  intro ha role hrole
  rw [hm.standardRoles_eq hn] at hrole
  have hfacets (c) : m'.IsFacetOf x role c ↔ m.IsFacetOf x role c := by
    constructor
    · intro hc
      obtain ⟨k, hk⟩ := hnew hrole hc
      obtain ⟨k', hk', ho, hkind, hka⟩ := hc
      obtain ⟨k₁, hk₁, hkind₁, ho₁, -⟩ := hm.same hk
      obtain rfl := Option.some.inj (hk₁.symm.trans hk')
      exact ⟨k, hk, ho₁.symm.trans ho, hkind₁.symm.trans hkind, hback hk ⟨_, hk', hka⟩⟩
    · intro hc
      obtain ⟨k', hk', hka⟩ := hkept ha hrole hc
      obtain ⟨k, hk, ho, hkind, -⟩ := hc
      obtain ⟨k₁, hk₁, hkind₁, ho₁, -⟩ := hm.same hk
      obtain rfl := Option.some.inj (hk₁.symm.trans hk')
      exact ⟨_, hk', ho₁.trans ho, hkind₁.trans hkind, hka⟩
  exact (existsUnique_congr hfacets).mpr (h ⟨n, hn, hback hn ha⟩ role hrole)

/-- A node that was there, when nothing is attached or detached. -/
theorem of_marks (h : m.Equipped x) (hm : Extends m m') (hn : m.node? x = some n)
    (hmarks : ∀ {y k}, m.node? y = some k → ∃ k', m'.node? y = some k' ∧ k'.attached = k.attached)
    (hnew : ∀ {role c}, role ∈ m.standardRoles x → m'.IsFacetOf x role c →
      ∃ k, m.node? c = some k) : m'.Equipped x := by
  refine h.of_extends hm hn (fun {y k} hk ⟨k', hk', ha⟩ => ?_)
    (fun {role c} _ _ ⟨k, hk, _, _, hka⟩ => ?_) hnew
  · obtain ⟨k₁, hk₁, hsame⟩ := hmarks hk
    obtain rfl := Option.some.inj (hk₁.symm.trans hk')
    exact hsame.symm.trans ha
  · obtain ⟨k', hk', hsame⟩ := hmarks hk
    exact ⟨k', hk', hsame.trans hka⟩

theorem modifyNode (h : m.Equipped x) (id : NodeId) {f : Node → Node}
    (hf : ∀ n : Node, n.SamePlace (f n)) : (m.modifyNode id f).Equipped x := by
  have before {y k} (hk : (m.modifyNode id f).node? y = some k) : ∃ k, m.node? y = some k := by
    obtain ⟨k, -, hk, -⟩ | ⟨-, hk⟩ := modifyNode_cases hk <;> exact ⟨k, hk⟩
  intro ha
  have ⟨k, hk, _⟩ := ha
  obtain ⟨n, hn⟩ := before hk
  refine h.of_marks (.modifyNode m id fun n => ⟨(hf n).kind, (hf n).owner, (hf n).library⟩) hn
    (fun {y k} hk => ?_) (fun _ ⟨k, hk, _⟩ => before hk) ha
  rw [node?_modifyNode, hk]
  split
  · exact ⟨f k, rfl, (hf k).attached⟩
  · exact ⟨k, rfl, rfl⟩

/-- A new child that is neither an object nor a second facet of one. -/
theorem appendChild (h : m.Equipped x) (hp : m.node? owner = some p) {kind : NodeKind}
    (name : String) (hobject : x = m.nextId → kind.standardFacets = [])
    (hfacet : owner = x → ∀ role ∈ m.standardRoles x, kind ≠ .facet role) :
    (m.appendChild owner p.library kind name).2.Equipped x := by
  by_cases hx : x = m.nextId
  · refine .of_standardRoles ?_
    rw [standardRoles_of_node? ((node?_appendChild hp ..).trans (if_pos hx))]
    exact hobject hx
  · intro ha
    have ⟨k, hk, _⟩ := ha
    obtain ⟨n, hn⟩ : ∃ n, m.node? x = some n := by
      obtain ⟨hnew, -⟩ | ⟨rfl, -⟩ | ⟨-, hold⟩ := appendChild_cases hp hk
      · exact absurd hnew hx
      · exact ⟨p, hp⟩
      · exact ⟨k, hold⟩
    refine h.of_marks (.appendChild m owner _ kind name) hn (fun {y k} hk => ?_)
      (fun {role c} hrole ⟨k, hk, ho, hkind, _⟩ => ?_) ha
    · obtain ⟨cs, -, hcs⟩ := exists_node?_appendChild hp hk p.library kind name
      exact ⟨_, hcs, rfl⟩
    · obtain ⟨-, rfl⟩ | ⟨rfl, -⟩ | ⟨-, hold⟩ := appendChild_cases hp hk
      · exact absurd hkind (hfacet (Option.some.inj ho) role hrole)
      · exact ⟨p, hp⟩
      · exact ⟨k, hold⟩

/-- A new member has one facet in each of its standard roles. -/
theorem newMember (hf : Forest m) (library : LibraryId) (kind : NodeKind) (name : String) :
    (m.appendMember library kind name).2.Equipped m.nextId := by
  have hnew := furnished_appendMember m library kind name
  have hroles : (m.appendMember library kind name).2.standardRoles m.nextId =
      kind.standardFacets := standardRoles_of_node? hnew.top
  rintro - role hrole
  rw [hroles] at hrole
  obtain ⟨j, hj⟩ := List.mem_iff_getElem?.mp hrole
  refine ⟨_, ⟨_, hnew.facet hj, rfl, rfl, rfl⟩, ?_⟩
  rintro c ⟨k, hk, ho, hkind, -⟩
  obtain rfl | ⟨i, role', hi, rfl, rfl⟩ | hold := appendMember_cases hk
  · obtain rfl := Option.some.inj (hnew.top.symm.trans hk)
    cases ho
  · -- No role comes twice, so a facet in the same role is at the same position.
    obtain rfl := NodeKind.facet.inj hkind
    obtain rfl := (List.getElem?_inj (List.getElem?_eq_some_iff.mp hi).1
      (nodup_standardFacets kind)).mp (hi.trans hj.symm)
    rfl
  · -- Nothing was owned by the next node.
    exact absurd (lt_of_node? hold) (Nat.lt_asymm (hf.owner_lt hold ho))

/-- A new member takes no facet from other nodes and gives them none. -/
theorem appendMember (h : m.Equipped x) (hf : Forest m) (library : LibraryId) (kind : NodeKind)
    (name : String) : (m.appendMember library kind name).2.Equipped x := by
  by_cases hx : x = m.nextId
  · exact hx ▸ newMember hf library kind name
  · intro ha
    have ⟨k, hk, _⟩ := ha
    obtain rfl | ⟨_, role, _, _, rfl⟩ | hn := appendMember_cases hk
    · exact absurd rfl hx
    · exact of_standardRoles (standardRoles_of_node? hk) ha
    · refine h.of_marks (.appendMember m library kind name) hn
        (fun {y k} hk => ⟨k, node?_appendMember_of_node? hk library kind name, rfl⟩)
        (fun {role c} _ ⟨k, hk, ho, _, _⟩ => ?_) ha
      obtain rfl | ⟨_, _, _, _, rfl⟩ | hold := appendMember_cases hk
      · have htop := (furnished_appendMember m library kind name).top
        obtain rfl := Option.some.inj (htop.symm.trans hk)
        cases ho
      · exact absurd (Option.some.inj ho).symm hx
      · exact ⟨k, hold⟩

/-- What is left after detaching a node that was none of the facets. -/
theorem without (h : m.Equipped x) (hf : Forest m) (hid : m.node? id = some n)
    (hfacet : ∀ role ∈ m.standardRoles x, ¬ m.IsFacetOf x role id) :
    (m.without id n).Equipped x := by
  intro ha
  have ⟨k', hk', hka'⟩ := ha
  obtain ⟨k, hk, rfl⟩ := without_cases hk'
  obtain ⟨hka, hx⟩ := Node.attached_cut.mp hka'
  refine h.of_extends (.without m id n) hk (fun {y p} hp ⟨p', hp', hpa⟩ => ?_)
    (fun {role c} _ hrole hc => ?_) (fun {role c} _ ⟨p', hp', _⟩ => ?_) ha
  · obtain ⟨q, hq, rfl⟩ := without_cases hp'
    obtain rfl := Option.some.inj (hp.symm.trans hq)
    exact (Node.attached_cut.mp hpa).1
  · have ⟨p, hp, ho, _, hpa⟩ := hc
    refine ⟨_, node?_without_of_node? hp id n, Node.attached_cut.mpr ⟨hpa, fun hbelow => hx ?_⟩⟩
    -- A facet goes with its object, or it is what was detached.
    cases (hf.under_of_mem_preorder hid hbelow).1 with
    | self => exact absurd hc (hfacet role hrole)
    | owned hp' ho' hu =>
      obtain rfl := Option.some.inj (hp.symm.trans hp')
      obtain rfl := Option.some.inj (ho.symm.trans ho')
      exact hf.mem_preorder_of_under hu hk hka
  · obtain ⟨q, hq, -⟩ := without_cases hp'
    exact ⟨q, hq⟩

/-- An equipped object finds its facet in each of its roles. -/
theorem facet?_eq_some_iff (h : m.Equipped x) (hf : Forest m) (hn : m.node? x = some n)
    (ha : n.attached = true) (hrole : role ∈ n.kind.standardFacets) :
    m.facet? x role = some c ↔ m.IsFacetOf x role c := by
  obtain ⟨d, hd, honly⟩ := h ⟨n, hn, ha⟩ role (standardRoles_of_node? hn ▸ hrole)
  have found {c} (hc : m.facet? x role = some c) : m.IsFacetOf x role c := by
    rw [facet?, hn, Option.bind_some] at hc
    obtain ⟨k, hk, ho, hka⟩ := hf.owned hn (List.mem_of_find?_eq_some hc)
    have hkind := List.find?_some hc
    rw [hk, Option.any_some, decide_eq_true_eq] at hkind
    exact ⟨k, hk, ho, hkind, hka ha⟩
  have hsome : (m.facet? x role).isSome = true := by
    rw [facet?, hn, Option.bind_some, List.find?_isSome]
    have hchild := hf.mem_children_of_isFacetOf hn hd
    obtain ⟨k, hk, -, hkind, -⟩ := hd
    exact ⟨d, hchild, by simp [hk, hkind]⟩
  refine ⟨found, fun hc => ?_⟩
  obtain ⟨e, he⟩ := Option.isSome_iff_exists.mp hsome
  rw [he, honly e (found he), honly c hc]

end Equipped

/-! ### Operations -/

/-- An operation that is not refused takes a standard facet from a node, adds a second one, or
creates an object below a node, where it gets no facets. Below a detached node nothing is added. -/
def Op.Strips (x : NodeId) (m : Model) : Op → Prop
  | .addChild owner kind _ =>
    m.IsAttached owner ∧
      ((owner = x ∧ ∃ role ∈ m.standardRoles x, kind = .facet role) ∨
        (x = m.nextId ∧ kind.standardFacets ≠ []))
  | .detach id => ∃ role ∈ m.standardRoles x, m.IsFacetOf x role id
  | _ => False

namespace Equipped

/-- All other operations leave a node its facets. -/
theorem apply (h : m.Equipped x) (hf : Forest m) {op : Op} (hop : ¬ op.Strips x m) :
    (op.apply m).Equipped x := by
  have hbecomes := becomes_apply hf op
  generalize op.apply m = m' at hbecomes
  cases hbecomes with
  | refused => exact h
  | addLibrary l => exact h
  | @addMember library l kind _ _ name => exact h.appendMember hf library kind name
  | addChild hp ha kind name =>
    obtain ⟨hfacet, hobject⟩ := not_or.mp fun hstrips => hop ⟨⟨_, hp, ha⟩, hstrips⟩
    exact h.appendChild hp name (fun hx => by_contra fun hk => hobject ⟨hx, hk⟩)
      fun ho role hrole hk => hfacet ⟨ho, role, hrole, hk⟩
  | detach hn _ => exact h.without hf hn fun role hrole hc => hop ⟨role, hrole, hc⟩
  | modify _ id hmodify => exact h.modifyNode id hmodify

/-- Whatever is done to a model, a node that nothing stripped has its facets. -/
theorem after (h : m.Equipped x) (hf : Forest m) {ops : List Op}
    (hops : ¬ Outcome.Occurs Op.apply (Op.Strips x) m ops) : (m.after ops).Equipped x :=
  (Outcome.foldl_keeps (I := fun m => m.Forest ∧ m.Equipped x)
    (fun _ ⟨hf, h⟩ hop => ⟨hf.apply _, h.apply hf hop⟩) ⟨hf, h⟩ hops).2

end Equipped

end Model

end SchemaEditor
