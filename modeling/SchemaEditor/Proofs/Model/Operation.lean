import SchemaEditor.Proofs.Model.Detach
import SchemaEditor.Proofs.Outcome

/-!
# Operations on a model

`Op` lists the ways to change a model, `apply` makes one of them, and `after` a sequence; an
operation that is refused leaves the model as it was. What an operation makes of a model is said
once, in `Becomes`; whatever is done, owners and children agree (`Forest.apply`). As long as no
library brings a list of members along, the lists of the libraries agree with the nodes as well:
`Shelved`.
-/

namespace SchemaEditor.Model

/-- A change of a model. -/
inductive Op where
  | addLibrary (l : Library)
  | addMember (library : LibraryId) (kind : NodeKind) (name : String)
  | addChild (owner : NodeId) (kind : NodeKind) (name : String)
  | detach (id : NodeId)
  | setName (id : NodeId) (name : String)
  | modifyDoc (id : NodeId) (f : Documentation → Documentation)
  | setMandatory (id : NodeId) (mandatory : Bool)
  | setTypeRef (id : NodeId) (provider : Option NodeId)
  | setBase (id : NodeId) (base : Option NodeId)
  | setContributesTo (id : NodeId) (target : Option NodeId)

namespace Op

/-- Tries a change. -/
def run (m : Model) : Op → Except Error Model
  | addLibrary l => .ok (m.addLibrary l).2
  | addMember library kind name => (·.2) <$> m.addMember library kind name
  | addChild owner kind name => (·.2) <$> m.addChild owner kind name
  | detach id => (·.2) <$> m.detach id
  | setName id name => m.setName id name
  | modifyDoc id f => m.modifyDoc id f
  | setMandatory id mandatory => m.setMandatory id mandatory
  | setTypeRef id provider => m.setTypeRef id provider
  | setBase id base => m.setBase id base
  | setContributesTo id target => m.setContributesTo id target

/-- Makes a change unless it is refused. -/
def apply (m : Model) (op : Op) : Model :=
  match op.run m with
  | .ok m' => m'
  | .error _ => m

/-- Whether a library that is added lists no members yet. -/
def Bare : Op → Prop
  | addLibrary l => l.members = []
  | _ => True

/-- What an operation makes of a forest; it may always be refused. -/
inductive Becomes (m : Model) : Op → Model → Prop
  | refused (op : Op) : Becomes m op m
  | addLibrary (l : Library) : Becomes m (.addLibrary l) (m.addLibrary l).2
  | addMember {library l kind} (hk : kind.isMember = true) (hl : m.library? library = some l)
      (name : String) :
      Becomes m (.addMember library kind name) (m.appendMember library kind name).2
  | addChild {owner p} (hp : m.node? owner = some p) (ha : p.attached = true) (kind : NodeKind)
      (name : String) :
      Becomes m (.addChild owner kind name) (m.appendChild owner p.library kind name).2
  | detach {id n} (hn : m.node? id = some n) (ha : n.attached = true) :
      Becomes m (.detach id) (m.without id n)
  /-- All other operations leave each node where it is. -/
  | modify (op : Op) (id : NodeId) {f : Node → Node} (hf : ∀ n : Node, n.SamePlace (f n)) :
      Becomes m op (m.modifyNode id f)

end Op

/-- A model after a sequence of changes. -/
def after (m : Model) (ops : List Op) : Model := ops.foldl Op.apply m

variable {m m' : Model} {id x : NodeId} {n : Node}

/-! ### New members -/

/-- The model with a new node at the end of the members of a library. -/
def withMember (m : Model) (library : LibraryId) (kind : NodeKind) (name : String) : Model :=
  (m.pushed (.fresh kind library none name)).modifyLibrary library fun l =>
    { l with members := l.members ++ [m.nextId] }

theorem node?_withMember (m : Model) (library : LibraryId) (kind : NodeKind) (name : String)
    (x : NodeId) :
    (m.withMember library kind name).node? x =
      if x = m.nextId then some (.fresh kind library none name) else m.node? x := by
  rw [withMember, node?_modifyLibrary, node?_pushed]

/-- A new member is a listed node and new children of attached nodes. -/
theorem appendMember_induct {P : Model → Prop} (library : LibraryId) (kind : NodeKind)
    (name : String) (listed : P (m.withMember library kind name))
    (child : ∀ m owner p kind name, P m → m.node? owner = some p → p.attached = true →
      P (m.appendChild owner p.library kind name).2) :
    P (m.appendMember library kind name).2 := by
  -- The member stays an attached node of the library while its facets are added.
  have facets (roles : List FacetRole) (m₀ : Model) (hP : P m₀) {p : Node}
      (hp : m₀.node? m.nextId = some p) (ha : p.attached = true) (hl : p.library = library) :
      P (roles.foldl (fun m₁ role => (m₁.appendChild m.nextId library (.facet role) "").2) m₀) := by
    induction roles generalizing m₀ p with
    | nil => exact hP
    | cons role roles ih =>
      subst hl
      rw [List.foldl_cons]
      refine ih _ (child _ _ _ _ _ hP hp ha) ?_ ha rfl
        (p := { p with children := p.children ++ [m₀.nextId] })
      rw [node?_appendChild hp, if_neg (ne_nextId hp), if_pos rfl]
  refine facets kind.standardFacets _ listed ?_ rfl rfl (p := .fresh kind library none name)
  exact (node?_withMember m library kind name m.nextId).trans (if_pos rfl)

/-! ### What becomes of a model -/

/-- An operation on a forest does nothing but what `Becomes` says. -/
theorem becomes_apply (h : Forest m) (op : Op) : op.Becomes m (op.apply m) := by
  unfold Op.apply
  cases hr : op.run m with
  | error e => exact .refused op
  | ok m' =>
    cases op with
    | addLibrary l =>
      obtain rfl := Except.ok.inj hr
      exact .addLibrary l
    | addMember library kind name =>
      obtain ⟨⟨id, _⟩, hadd, rfl⟩ := Outcome.map_eq_ok_iff.mp hr
      obtain ⟨hk, ⟨l, hl⟩, he⟩ := addMember_eq_ok_iff.mp hadd
      rw [(Prod.mk.inj he).2]
      exact .addMember hk hl name
    | addChild owner kind name =>
      obtain ⟨⟨id, _⟩, hadd, rfl⟩ := Outcome.map_eq_ok_iff.mp hr
      obtain ⟨p, hp, ha, he⟩ := addChild_eq_ok_iff.mp hadd
      rw [(Prod.mk.inj he).2]
      exact .addChild hp ha kind name
    | detach id =>
      obtain ⟨⟨ids, _⟩, hd, rfl⟩ := Outcome.map_eq_ok_iff.mp hr
      obtain ⟨n, hn, ha, -, rfl⟩ := h.detach_eq_ok_iff.mp hd
      exact .detach hn ha
    | setName | modifyDoc | setMandatory | setTypeRef | setBase | setContributesTo =>
      obtain ⟨-, rfl⟩ := update_eq_ok_iff.mp hr
      exact .modify _ _ fun _ => ⟨rfl, rfl, rfl, rfl, rfl⟩

/-! ### Owners and children agree -/

namespace Forest

theorem withMember (h : Forest m) (library : LibraryId) {kind : NodeKind}
    (hk : kind.isMember = true) (name : String) : Forest (m.withMember library kind name) :=
  (h.pushed hk library name).of_nodes rfl

theorem appendMember (h : Forest m) (library : LibraryId) {kind : NodeKind}
    (hk : kind.isMember = true) (name : String) : Forest (m.appendMember library kind name).2 :=
  appendMember_induct library kind name (h.withMember library hk name)
    fun _ _ _ kind name h hp ha => h.appendChild hp ha kind name

/-- Every operation keeps owners and children in agreement. -/
theorem apply (h : Forest m) (op : Op) : Forest (op.apply m) := by
  have hop := becomes_apply h op
  generalize op.apply m = m' at hop
  cases hop with
  | refused => exact h
  | addLibrary l => exact h.of_nodes rfl
  | addMember hk hl name => exact h.appendMember _ hk name
  | addChild hp ha kind name => exact h.appendChild hp ha kind name
  | detach hn ha => exact h.without hn
  | modify _ id hf => exact h.modifyNode id hf

/-- Every operation keeps each node where it is. -/
theorem extends_apply (h : Forest m) (op : Op) : Extends m (op.apply m) := by
  have hop := becomes_apply h op
  generalize op.apply m = m' at hop
  cases hop with
  | refused => exact .refl m
  | addLibrary l => exact .of_nodes rfl
  | @addMember library _ kind _ _ name => exact .appendMember m library kind name
  | @addChild owner p _ _ kind name => exact .appendChild m owner p.library kind name
  | @detach id n => exact .without m id n
  | modify _ id hf => exact .modifyNode m id fun n => ⟨(hf n).kind, (hf n).owner, (hf n).library⟩

theorem after (h : Forest m) (ops : List Op) : Forest (m.after ops) := by
  induction ops generalizing m with
  | nil => exact h
  | cons op ops ih => exact ih (h.apply op)

end Forest

end SchemaEditor.Model
