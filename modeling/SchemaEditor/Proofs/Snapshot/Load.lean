import SchemaEditor.Proofs.Model.Whole
import SchemaEditor.Snapshot.Loader

/-!
# Models of snapshots

Loading a snapshot only ever adds to the model and sets references to nodes that exist. So the model
of every snapshot that can be loaded is whole: everything is attached, owners, children and
libraries agree, and no reference is left open.
-/

namespace SchemaEditor.Snapshot

open Model (Whole)
open Outcome (bind_eq_ok_iff foldlM_keeps)

variable {α : Type} {l l' : Loader} {owner node : NodeId} {key : String}

namespace Loader

/-- The model that is being loaded is sound. -/
def Sound (l : Loader) : Prop := l.builder.Sound

namespace Sound

theorem enter (h : Sound l) (he : l.enter key node = .ok l') : Sound l' := by
  unfold Loader.enter at he
  split at he
  · cases he
  · obtain rfl := Except.ok.inj he
    exact h

theorem defer (h : Sound l) (node : NodeId) (target : Target) (key : Option String) :
    Sound (l.defer node target key) := by
  cases key <;> exact h

theorem build {step : Builder → Except Model.Error (α × Builder)} {a : α}
    (hb : l.build step = .ok (a, l'))
    (hstep : ∀ {b'}, step l.builder = .ok (a, b') → b'.Sound) : Sound l' := by
  unfold Loader.build at hb
  split at hb
  · next a' b' hs =>
    obtain ⟨rfl, rfl⟩ := Prod.mk.inj (Except.ok.inj hb)
    exact hstep hs
  · cases hb

theorem child (h : Sound l) {kind : NodeKind} {name : String}
    (hb : l.build (fun b => b.child owner kind name) = .ok (node, l')) : Sound l' :=
  build hb fun hs => Builder.Sound.child h hs

/-- Texts and flags of a new node. -/
theorem refine (h : Sound l) {f : Node → Node} (hf : ∀ n : Node, n.SamePlace (f n))
    (hr : ∀ n, (f n).typeRef = n.typeRef ∧ (f n).base = n.base) : Sound (l.refine node f) := by
  refine Builder.Sound.modifyNode h rfl rfl hf fun n s p hp => .inl ?_
  cases s with
  | type => exact (hr n).1.symm.trans hp
  | base => exact (hr n).2.symm.trans hp

theorem property {memberKey : String} {p : Property} (h : Sound l)
    (hp : Loader.property owner memberKey l p = .ok l') : Sound l' := by
  unfold Loader.property at hp
  split at hp
  · cases hp
  · obtain ⟨⟨node, l₁⟩, hb, hp⟩ := bind_eq_ok_iff.mp hp
    refine enter (defer ?_ _ _ _) hp
    exact (h.child hb).refine (fun _ => ⟨rfl, rfl, rfl, rfl, rfl⟩) fun _ => ⟨rfl, rfl⟩

theorem standardFacet {memberKey : String} {role : FacetRole} (h : Sound l)
    (hf : Loader.standardFacet owner memberKey l role = .ok l') : Sound l' := by
  unfold Loader.standardFacet at hf
  split at hf
  · exact h.enter hf
  · obtain rfl := Except.ok.inj hf
    exact h

theorem section_ {memberKey : String} {entry : String × List Property} (h : Sound l)
    (hs : Loader.section_ owner memberKey l entry = .ok l') : Sound l' := by
  unfold Loader.section_ at hs
  split at hs
  · cases hs
  · split at hs
    · cases hs
    · exact foldlM_keeps (fun h hp => h.property hp) h hs

theorem part {kind : NodeKind} {keyOf : String → String} {name : String} (h : Sound l)
    (hp : Loader.part owner kind keyOf l name = .ok l') : Sound l' := by
  obtain ⟨⟨node, l₁⟩, hb, hp⟩ := bind_eq_ok_iff.mp hp
  exact (h.child hb).enter hp

theorem payload {actionKey ending : String} {kind : NodeKind} {key : Option String} (h : Sound l)
    (hp : Loader.payload owner actionKey kind ending l key = .ok l') : Sound l' := by
  obtain ⟨⟨node, l₁⟩, hb, hp⟩ := bind_eq_ok_iff.mp hp
  obtain ⟨l₂, he, hp⟩ := bind_eq_ok_iff.mp hp
  obtain rfl := Except.ok.inj hp
  exact ((h.child hb).enter he).defer _ _ _

theorem action {memberKey : String} {a : Action} (h : Sound l)
    (ha : Loader.action owner memberKey l a = .ok l') : Sound l' := by
  obtain ⟨⟨node, l₁⟩, hb, ha⟩ := bind_eq_ok_iff.mp ha
  obtain ⟨l₂, he, ha⟩ := bind_eq_ok_iff.mp ha
  obtain ⟨l₃, hrequest, hresponse⟩ := bind_eq_ok_iff.mp ha
  exact (((h.child hb).enter he).payload hrequest).payload hresponse

theorem member {library : LibraryId} {m : Member} (h : Sound l)
    (hm : Loader.member library l m = .ok l') : Sound l' := by
  obtain ⟨⟨node, l₁⟩, hb, hm⟩ := bind_eq_ok_iff.mp hm
  obtain ⟨l₂, he, hm⟩ := bind_eq_ok_iff.mp hm
  obtain ⟨l₃, hstandard, hm⟩ := bind_eq_ok_iff.mp hm
  obtain ⟨l₄, hfacets, hm⟩ := bind_eq_ok_iff.mp hm
  obtain ⟨l₅, hproperties, hm⟩ := bind_eq_ok_iff.mp hm
  obtain ⟨l₆, hvalues, hm⟩ := bind_eq_ok_iff.mp hm
  obtain ⟨l₇, haliases, hm⟩ := bind_eq_ok_iff.mp hm
  obtain ⟨l₈, hactions, hm⟩ := bind_eq_ok_iff.mp hm
  obtain rfl := Except.ok.inj hm
  have h₁ : Sound l₁ := build hb fun hs => Builder.Sound.member h hs
  have h₂ : Sound l₂ := by
    refine enter ?_ he
    exact h₁.refine (fun _ => ⟨rfl, rfl, rfl, rfl, rfl⟩) fun _ => ⟨rfl, rfl⟩
  have h₃ : Sound l₃ := foldlM_keeps (fun h hf => h.standardFacet hf) h₂ hstandard
  have h₄ : Sound l₄ := foldlM_keeps (fun h hs => h.section_ hs) h₃ hfacets
  have h₅ : Sound l₅ := foldlM_keeps (fun h hp => h.property hp) h₄ hproperties
  have h₆ : Sound l₆ := foldlM_keeps (fun h hp => h.part hp) h₅ hvalues
  have h₇ : Sound l₇ := foldlM_keeps (fun h hp => h.part hp) h₆ haliases
  have h₈ : Sound l₈ := foldlM_keeps (fun h ha => h.action ha) h₇ hactions
  exact ((h₈.defer _ _ _).defer _ _ _).defer _ _ _

theorem library {lib : Library} (h : Sound l) (hl : Loader.library l lib = .ok l') : Sound l' := by
  refine foldlM_keeps (fun h hm => h.member hm) ?_ hl
  exact Builder.Sound.library h rfl

theorem resolve (h : Sound l) (hr : l.resolve key = .ok (node, l')) : Sound l' := by
  unfold Loader.resolve at hr
  split at hr
  · obtain ⟨-, rfl⟩ := Prod.mk.inj (Except.ok.inj hr)
    exact h
  · split at hr
    · cases hr
    · next name _ =>
      obtain ⟨-, rfl⟩ := Prod.mk.inj (Except.ok.inj hr)
      exact Builder.Sound.xsd h name

theorem settle {p : Pending} (h : Sound l) (hs : l.settle p = .ok l') : Sound l' := by
  obtain ⟨⟨node, l₁⟩, hr, hs⟩ := bind_eq_ok_iff.mp hs
  have h₁ : Sound l₁ := h.resolve hr
  simp only at hs
  split at hs
  · next b hset =>
    obtain rfl := Except.ok.inj hs
    show b.Sound
    split at hset
    · exact h₁.assign hset
    · exact h₁.extend hset
    · exact h₁.contribute hset
  · cases hs

end Sound

end Loader

/-- The model of a snapshot is whole. -/
theorem whole_of_load {s : Snapshot} {loaded : Loaded} (h : s.load = .ok loaded) :
    Whole loaded.model := by
  obtain ⟨l₁, hlibraries, h⟩ := bind_eq_ok_iff.mp h
  obtain ⟨l₂, hpending, h⟩ := bind_eq_ok_iff.mp h
  obtain rfl := Except.ok.inj h
  have hstart : Loader.start.Sound := Builder.Sound.empty
  have h₁ : l₁.Sound := foldlM_keeps (fun h hl => h.library hl) hstart hlibraries
  have h₂ : l₂.Sound := foldlM_keeps (fun h hs => h.settle hs) h₁ hpending
  exact h₂.whole

/-! ### Loading given snapshots -/

/-- A snapshot for which something is computed of its model can be loaded. -/
theorem exists_loaded {s : Snapshot} {p : Loaded → Bool}
    (hp : (match s.load with | .ok loaded => p loaded | .error _ => false) = true) :
    ∃ loaded, s.load = .ok loaded ∧ p loaded = true := by
  cases h : s.load with
  | ok loaded =>
    rw [h] at hp
    exact ⟨loaded, rfl, hp⟩
  | error e =>
    rw [h] at hp
    cases hp

/-- A stored business object with properties in its summary. -/
def Member.object (name : String) (key : Option String) (summary : List Property) : Member where
  kind := .member .businessObject
  name := name
  key := key
  description := ""
  typeKey := none
  baseKey := none
  contributesTo := none
  facets := ⟨[("summary", summary)], List.pairwise_singleton _ _⟩
  properties := []
  values := []
  aliases := []
  actions := []

/-- A snapshot of one library with the given members. -/
def shop (members : List Member) : Snapshot where
  libraries :=
    [{ name := "Shop", uri := "urn:shop", version := ⟨1, 0, 0⟩, status := .draft, managed := false
       lockedBy := none, members }]

/-- An order, and a facet that is declared apart from it and contributed into it. -/
def contributedNotes : Snapshot :=
  shop
    [.object "Order" none [],
    { Member.object "Notes" none [] with
      kind := .member (.contextualFacet .custom)
      contributesTo := some "Order"
      facets := ⟨[], .nil⟩ }]

end SchemaEditor.Snapshot
