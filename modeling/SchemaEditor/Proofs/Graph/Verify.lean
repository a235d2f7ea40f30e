import SchemaEditor.Graph.Verify
import SchemaEditor.Proofs.Graph.Change

/-!
# Graphs without faults

Each group of checks of `verify` is silent under the invariant that speaks of it: the identity of
facades under a sound registry, the structure under agreeing owners, libraries and references, and
the index under its agreement with the model. When the checks of the index are silent is said
exactly, in `usageFaults_eq_nil_iff`.
-/

namespace SchemaEditor

namespace Verify

open Model (Forest Shelved Tidy)

variable {m : Model} {x : Usage.Index} {id : NodeId} {n : Node}

/-! ### Identity -/

theorem identityFaults_eq_nil {r : Facade.Registry} {kind? : NodeId → Option Facade.Kind}
    (h : r.Sound kind?) : identityFaults r = [] := by
  rw [identityFaults, List.flatMap_eq_nil_iff]
  rintro ⟨id, e⟩ hmem
  have he := h.entry?_of_mem_toList hmem
  have hearlier : ((r.toList.take id.index).reverse.find? fun other => other.2.node = e.node) =
      none := by
    rw [List.find?_eq_none]
    rintro ⟨j, e'⟩ hj
    obtain ⟨he', hlt⟩ := h.entry?_of_mem_take (List.mem_reverse.mp hj)
    intro hnode
    have hij := h.distinct he' he (of_decide_eq_true hnode)
    rw [hij] at hlt
    exact Nat.lt_irrefl _ hlt
  simp [hearlier, h.get?_of_entry he]

/-! ### Structure -/

theorem forAttached_eq_nil_iff {check : NodeId → Node → List Item} :
    forAttached m check = [] ↔
      ∀ {id n}, m.node? id = some n → n.attached = true → check id n = [] := by
  rw [forAttached, List.flatMap_eq_nil_iff]
  constructor
  · intro h id n hn ha
    have hid := h id (Model.mem_nodeIds.mpr (Model.lt_of_node? hn))
    simpa only [hn, ha, if_true] using hid
  · intro h id _
    split
    · next n hn =>
      split
      · next ha => exact h hn ha
      · rfl
    · rfl

theorem require_eq_nil {holds : Node → Bool} {fault : Fault} (hn : m.node? id = some n)
    (hh : holds n = true) : require m id holds fault = [] := by
  simp only [require, Model.node_of_node? hn, hh, if_true]

theorem listing_eq_nil (hf : Forest m) (hs : Shelved m) (hn : m.node? id = some n)
    (ha : n.attached = true) : listing m id n = [] := by
  unfold listing
  split
  · next owner ho =>
    obtain ⟨p, hp, -, hmem⟩ := hf.listed hn ha ho
    exact require_eq_nil hp (by simpa using hmem)
  · next ho =>
    obtain ⟨l, hl⟩ := hs.library_exists hn
    simp [Model.library_eq_ok_iff.mpr hl, hs.listed hn ha ho hl]

theorem content_eq_nil (hf : Forest m) (ht : Tidy m) (hn : m.node? id = some n)
    (ha : n.attached = true) : content m id n = [] := by
  have attached (slot : Usage.Slot) {p : NodeId} (hp : slot.reference n = some p) :
      ∃ k, m.node? p = some k ∧ k.attached = true :=
    ht ⟨id, slot⟩ p (Model.reference?_eq_some_iff.mpr ⟨n, hn, ha, hp⟩)
  rw [content, List.append_eq_nil_iff, List.flatMap_eq_nil_iff, List.flatMap_eq_nil_iff]
  constructor
  · intro child hchild
    obtain ⟨k, hk, ho, -⟩ := hf.owned hn hchild
    exact require_eq_nil hk (by simp [ho])
  · intro p hp
    obtain hp | hp := List.mem_append.mp hp
    · obtain ⟨k, hk, hka⟩ := attached .type (Option.mem_toList.mp hp)
      exact require_eq_nil hk hka
    · obtain ⟨k, hk, hka⟩ := attached .base (Option.mem_toList.mp hp)
      exact require_eq_nil hk hka

theorem structureFaults_eq_nil (hf : Forest m) (hs : Shelved m) (ht : Tidy m) :
    structureFaults m = [] := by
  rw [structureFaults, forAttached_eq_nil_iff.mpr fun hn ha => by
    rw [listing_eq_nil hf hs hn ha, content_eq_nil hf ht hn ha, List.append_nil]]
  rfl

/-! ### The index -/

theorem collect_eq_nil_iff {items : List Item} : collect items = [] ↔ items = [] := by
  cases items with
  | nil => simp [collect]
  | cons item items => cases item <;> simp [collect]

theorem slotInIndex_eq_nil_iff {slot : Usage.Slot} :
    slotInIndex x id n slot = [] ↔ x.provider? ⟨id, slot⟩ = slot.reference n := by
  simp [slotInIndex]

theorem referenceInModel_eq_nil_iff {p : NodeId} {r : Usage.Reference} :
    referenceInModel m p r = [] ↔
      ∃ n, m.node? r.user = some n ∧ r.slot.reference n = some p := by
  cases hn : m.node? r.user with
  | none => simp [referenceInModel, Model.node_of_none hn]
  | some n => simp [referenceInModel, Model.node_of_node? hn]

/-- The index passes if the references of attached nodes are recorded as they are, and each recorded
reference is that of a node. Whether this node is attached is not looked at. -/
theorem usageFaults_eq_nil_iff :
    usageFaults m x = [] ↔
      (∀ {id n}, m.node? id = some n → n.attached = true →
        ∀ slot : Usage.Slot, x.provider? ⟨id, slot⟩ = slot.reference n) ∧
      ∀ p ∈ x.providers, ∀ r ∈ x.usersOf p,
        ∃ n, m.node? r.user = some n ∧ r.slot.reference n = some p := by
  have both {id n} : slotInIndex x id n .type ++ slotInIndex x id n .base = [] ↔
      ∀ slot : Usage.Slot, x.provider? ⟨id, slot⟩ = slot.reference n := by
    rw [List.append_eq_nil_iff, slotInIndex_eq_nil_iff, slotInIndex_eq_nil_iff]
    exact ⟨fun h slot => by cases slot <;> [exact h.1; exact h.2], fun h => ⟨h .type, h .base⟩⟩
  rw [usageFaults, collect_eq_nil_iff, List.append_eq_nil_iff, forAttached_eq_nil_iff]
  simp only [both, List.flatMap_eq_nil_iff, referenceInModel_eq_nil_iff]

theorem usageFaults_eq_nil (hx : x.Agrees m) : usageFaults m x = [] := by
  refine usageFaults_eq_nil_iff.mpr ⟨fun {id n} hn ha slot => ?_, fun p _ r hr => ?_⟩
  · exact (hx.assigned _).trans (Model.reference?_of_attached (r := ⟨id, slot⟩) hn ha)
  · obtain ⟨n, hn, -, hslot⟩ := Model.reference?_eq_some_iff.mp (hx.mem_usersOf.mp hr)
    exact ⟨n, hn, hslot⟩

end Verify

/-- A managed graph whose libraries list its members and whose references lead to attached nodes
has no fault. -/
theorem Graph.Managed.verify_eq_nil {g : Graph} (hg : g.Managed) (hs : g.model.Shelved)
    (ht : g.model.Tidy) : g.verify = [] := by
  rw [Graph.verify, SchemaEditor.verify, Verify.identityFaults_eq_nil hg.facades,
    Verify.structureFaults_eq_nil hg.forest hs ht, Verify.usageFaults_eq_nil hg.usage]
  rfl

end SchemaEditor
