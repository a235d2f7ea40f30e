import SchemaEditor.Graph.Basic
import SchemaEditor.Proofs.Facade.Registry
import SchemaEditor.Proofs.Model.BaseChain
import SchemaEditor.Proofs.Model.Layer
import SchemaEditor.Proofs.Usage.Agreement

/-!
# Changes of a graph

Every edit of a graph is made of the changes that `Change` names. `Step` says when a change may be
made and what it leads to, and `Evolves` follows changes of a certain kind one after the other.
What a graph keeps through every step it keeps through every edit: that owners and children agree,
that the index shows the references of the model, and that the facades are those of their nodes
(`Managed`); that references lead to attached nodes; and that the libraries list their members.
-/

namespace SchemaEditor

namespace Model

variable {m m' : Model} {id : NodeId} {kind : Facade.Kind}

/-- The kind of the facade of a node. -/
def facadeKind? (m : Model) (id : NodeId) : Option Facade.Kind :=
  (m.node? id).bind fun n => Facade.Kind.ofNode? n.kind

theorem facadeKind?_of_node? {n : Node} (hn : m.node? id = some n) :
    m.facadeKind? id = Facade.Kind.ofNode? n.kind := by
  rw [facadeKind?, hn, Option.bind_some]

theorem facadeKind?_eq_some_iff :
    m.facadeKind? id = some kind ↔
      ∃ n, m.node? id = some n ∧ Facade.Kind.ofNode? n.kind = some kind :=
  Option.bind_eq_some_iff

theorem Extends.facadeKind? (h : Extends m m') (hk : m.facadeKind? id = some kind) :
    m'.facadeKind? id = some kind := by
  obtain ⟨n, hn, hkind⟩ := facadeKind?_eq_some_iff.mp hk
  obtain ⟨n', hn', he, -⟩ := h.same hn
  exact facadeKind?_eq_some_iff.mpr ⟨n', hn', he ▸ hkind⟩

end Model

namespace Graph

open Model (Forest Extends Layered Shelved Tidy)
open Usage (Reference)

/-- A change of a graph. -/
inductive Change where
  /-- A facade is handed out for a node. -/
  | register (node : NodeId)
  | rename (node : NodeId) (name : String)
  | document (node : NodeId) (f : Documentation → Documentation)
  | mandate (node : NodeId) (mandatory : Bool)
  /-- A child is added under a node. -/
  | grow (owner : NodeId) (kind : NodeKind) (name : String)
  /-- A reference is pointed at a node. -/
  | point (r : Reference) (provider : NodeId)
  | clear (r : Reference)
  /-- A node is detached with all that is below it. -/
  | detach (node : NodeId)

/-- What a change leads to, where it may be made. -/
inductive Step (g : Graph) : Change → Graph → Prop
  | register {node kind} (hk : g.model.facadeKind? node = some kind)
      (hfree : g.facades.get? node = none) :
      Step g (.register node) { g with facades := (g.facades.insert node kind).2 }
  | rename {node n} (hn : g.model.node? node = some n) (name : String) :
      Step g (.rename node name)
        { g with model := g.model.modifyNode node fun n => { n with name } }
  | document {node n} (hn : g.model.node? node = some n) (f : Documentation → Documentation) :
      Step g (.document node f)
        { g with model := g.model.modifyNode node fun n => { n with doc := f n.doc } }
  | mandate {node n} (hn : g.model.node? node = some n) (mandatory : Bool) :
      Step g (.mandate node mandatory)
        { g with model := g.model.modifyNode node fun n => { n with mandatory } }
  | grow {owner p} (hp : g.model.node? owner = some p) (ha : p.attached = true)
      (kind : NodeKind) (name : String) :
      Step g (.grow owner kind name)
        { g with model := (g.model.appendChild owner p.library kind name).2 }
  | point {r n p k usage} (hn : g.model.node? r.user = some n) (ha : n.attached = true)
      (hp : g.model.node? p = some k) (hpa : k.attached = true)
      (hu : usage.Agrees (g.model.modifyNode r.user (r.slot.put (some p)))) :
      Step g (.point r p)
        { g with model := g.model.modifyNode r.user (r.slot.put (some p)), usage }
  | clear {r n} (hn : g.model.node? r.user = some n) (ha : n.attached = true) :
      Step g (.clear r)
        { g with
          model := g.model.modifyNode r.user (r.slot.put none), usage := g.usage.forget r }
  | detach {node n} (hn : g.model.node? node = some n) (ha : n.attached = true)
      (hr : ∀ r p, g.model.reference? r = some p →
        r.user ∉ g.model.preorder node ∧ p ∉ g.model.preorder node) :
      Step g (.detach node) { g with model := g.model.without node n }

/-- The changes that calls make: no facet is added to what its object was created with, no member is
added below a node, and no base is set that already leads back to its member. -/
def Admitted (g : Graph) : Change → Prop
  | .grow _ kind _ => kind.isFacet = false ∧ kind.isMember = false
  | .point r p => r.slot = .base → ¬ Relation.ReflTransGen g.model.HasBase p r.user
  | _ => True

/-- The admitted changes that give no node another name or type. -/
def Steady (g : Graph) (c : Change) : Prop :=
  Admitted g c ∧ match c with
    | .rename _ _ => False
    | .point r _ => r.slot = .base
    | _ => True

/-- The changes of a certain kind that detach nothing. -/
def Lossless (P : Graph → Change → Prop) (g : Graph) (c : Change) : Prop :=
  P g c ∧ ∀ node, c ≠ .detach node

/-- The parts of a graph agree with each other. -/
structure Managed (g : Graph) : Prop where
  forest : g.model.Forest
  usage : g.usage.Agrees g.model
  facades : g.facades.Sound g.model.facadeKind?

namespace Step

variable {g g' : Graph} {c : Change}

theorem versioning_eq (h : Step g c g') : g'.versioning = g.versioning := by
  cases h <;> rfl

/-- Whatever happens to a model, its nodes stay. -/
theorem extends_ (h : Step g c g') : Extends g.model g'.model := by
  cases h with
  | register => exact .refl _
  | rename | document | mandate => exact .modifyNode _ _ fun _ => ⟨rfl, rfl, rfl⟩
  | grow => exact .appendChild _ _ _ _ _
  | point => exact Usage.Slot.extends_put _ _ _ _
  | clear => exact Usage.Slot.extends_put _ _ _ _
  | detach => exact .without _ _ _

theorem forest (h : Step g c g') (hf : Forest g.model) : Forest g'.model := by
  cases h with
  | register => exact hf
  | rename | document | mandate => exact hf.modifyNode _ fun _ => ⟨rfl, rfl, rfl, rfl, rfl⟩
  | grow hp ha kind name => exact hf.appendChild hp ha kind name
  | point => exact hf.modifyNode _ (Usage.Slot.samePlace_put _ _)
  | clear => exact hf.modifyNode _ (Usage.Slot.samePlace_put _ _)
  | detach hn => exact hf.without hn

/-- References change by pointing and clearing only; detaching meets none below. -/
theorem usage (h : Step g c g') (hf : Forest g.model) (hu : g.usage.Agrees g.model) :
    g'.usage.Agrees g'.model := by
  have hf' := h.forest hf
  have hext := h.extends_
  cases h with
  | register => exact hu
  | rename | document | mandate =>
    exact hu.of_extends hf hf' hext (Model.reference?_modifyNode _ _ fun _ => ⟨rfl, rfl, rfl⟩)
  | grow hp => exact hu.of_extends hf hf' hext (Model.reference?_appendChild hp _ _ _)
  | point _ _ _ _ hu => exact hu
  | clear hn ha => exact (hu.unassign hf hn ha).2
  | @detach node n _ _ hr =>
    refine hu.of_extends hf hf' hext fun r => ?_
    rw [Model.reference?_without]
    split
    · next hmem =>
      cases href : g.model.reference? r with
      | none => rfl
      | some p => exact absurd hmem (hr r p href).1
    · rfl

theorem facades (h : Step g c g') (hr : g.facades.Sound g.model.facadeKind?) :
    g'.facades.Sound g'.model.facadeKind? := by
  have hext := h.extends_
  cases h with
  | register hk hfree => exact hr.insert hfree hk
  | _ => exact hr.of_kinds fun hk => hext.facadeKind? hk

/-- A change keeps the parts of a graph in agreement. -/
theorem managed (h : Step g c g') (hg : Managed g) : Managed g' :=
  ⟨h.forest hg.forest, h.usage hg.forest hg.usage, h.facades hg.facades⟩

/-- A change leaves no reference to a detached node. -/
theorem tidy (h : Step g c g') (ht : Tidy g.model) : Tidy g'.model := by
  cases h with
  | register => exact ht
  | rename | document | mandate => exact ht.modifyNode _ fun _ => ⟨rfl, rfl, rfl⟩
  | grow hp => exact ht.appendChild hp _ _ _
  | point hn ha hp hpa => exact ht.write hn ha fun _ he => Option.some.inj he ▸ ⟨_, hp, hpa⟩
  | clear hn ha => exact ht.write hn ha fun _ he => by cases he
  | detach _ _ hr => exact ht.without fun r p hp => (hr r p hp).2

theorem shelved (h : Step g c g') (hf : Forest g.model) (hs : Shelved g.model) :
    Shelved g'.model := by
  cases h with
  | register => exact hs
  | rename | document | mandate => exact hs.modifyNode _ fun _ => ⟨rfl, rfl, rfl, rfl, rfl⟩
  | grow hp ha kind name => exact hs.appendChild hp kind name
  | point => exact hs.modifyNode _ (Usage.Slot.samePlace_put _ _)
  | clear => exact hs.modifyNode _ (Usage.Slot.samePlace_put _ _)
  | detach hn => exact hs.without hf hn

/-- No admitted change adds a facet. -/
theorem layered (h : Step g c g') (hc : Admitted g c) (hl : Layered g.model) :
    Layered g'.model := by
  cases h with
  | register => exact hl
  | rename | document | mandate => exact hl.modifyNode _ fun _ => ⟨rfl, rfl, rfl, rfl, rfl⟩
  | grow hp _ kind name => exact hl.appendChild hp hc.1 name
  | point => exact hl.modifyNode _ (Usage.Slot.samePlace_put _ _)
  | clear => exact hl.modifyNode _ (Usage.Slot.samePlace_put _ _)
  | detach => exact hl.without _ _

end Step

end Graph

end SchemaEditor
