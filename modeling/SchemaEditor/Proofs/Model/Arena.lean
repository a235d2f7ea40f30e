import SchemaEditor.Proofs.Model.Name
import SchemaEditor.Proofs.Model.Shelf

/-!
# Well-formed arenas

`WellFormed` says how a model hangs together: owners come before what they own and lie in the same
library, whatever is attached is listed exactly once where it belongs, lists name nodes that agree,
and below a detached node nothing is attached. Every model that is reached from the empty one is
well formed.

This is why walks over a model end. `Climbs` and `Visits` are walks as they go on without a bound,
from owner to owner and over a stack of nodes; `Names` is the one from a part whose name is derived
to what it is named after. On every node each of them ends, and with the answer of the query.
-/

namespace SchemaEditor.Model

/-! ### Walks without a bound -/

/-- Climbing from owner to owner ends at `top`. -/
inductive Climbs (m : Model) (top : NodeId) : NodeId → Prop
  | root {n} (hn : m.node? top = some n) (ho : n.owner = none) : Climbs m top top
  | owned {id n o} (hn : m.node? id = some n) (ho : n.owner = some o) (h : Climbs m top o) :
      Climbs m top id

/-- Visiting the nodes of a stack, each of them replaced by its children, ends with a list. -/
inductive Visits (m : Model) : List NodeId → List NodeId → Prop
  | done : Visits m [] []
  | visit {id n stack ids} (hn : m.node? id = some n) (h : Visits m (n.children ++ stack) ids) :
      Visits m (id :: stack) (id :: ids)

variable {m : Model} {id top : NodeId} {n : Node} {row xs stack ids : List NodeId}

/-- Visiting a row of nodes on top of a stack yields the listing of the row first. -/
theorem Listing.visits (hl : Listing m row xs) (hv : Visits m stack ids) :
    Visits m (row ++ stack) (xs ++ ids) := by
  induction hl generalizing stack ids with
  | nil => exact hv
  | cons hn _ _ below after =>
    rw [List.cons_append, List.cons_append, List.append_assoc]
    exact .visit hn (below (after hv))

namespace Forest

theorem memberOf_of_climbs (h : Forest m) (hc : Climbs m top id) : m.memberOf id = .ok top := by
  induction hc with
  | root hn ho => exact memberOf_of_root hn ho
  | owned hn ho _ ih => exact (h.memberOf_of_owner hn ho).trans ih

/-- Climbing ends on every node, at its member. -/
theorem climbs_iff (h : Forest m) (hn : m.node? id = some n) :
    Climbs m top id ↔ m.memberOf id = .ok top := by
  refine ⟨h.memberOf_of_climbs, fun hm => ?_⟩
  obtain ⟨⟨t, ht, hroot⟩, hu⟩ := (h.memberOf_eq_ok_iff hn).mp hm
  clear hm hn
  induction hu with
  | self => exact .root ht hroot
  | owned hn ho _ ih => exact .owned hn ho ih

theorem subtree_of_visits (h : Forest m) (hv : Visits m stack ids) :
    ids = stack.flatMap m.preorder := by
  induction hv with
  | done => rfl
  | visit hn _ ih =>
    rw [ih, List.flatMap_cons, h.preorder_eq hn, List.flatMap_append, List.cons_append]

/-- Visiting ends on every node, with what is below it. -/
theorem visits_iff (h : Forest m) (hn : m.node? id = some n) :
    Visits m [id] ids ↔ m.subtree id = .ok ids := by
  rw [h.subtree_eq hn, Except.ok.injEq]
  constructor
  · intro hv
    simpa using (h.subtree_of_visits hv).symm
  · rintro rfl
    simpa using (h.listing_preorder (List.forall_mem_singleton.mpr ⟨n, hn⟩)).visits .done

end Forest

/-! ### Well-formed models -/

/-- How a model hangs together. -/
structure WellFormed (m : Model) : Prop where
  owner : ∀ {id n o}, m.node? id = some n → n.owner = some o →
    ∃ p, m.node? o = some p ∧ o.index < id.index ∧ p.library = n.library
  listed : ∀ {id n o}, m.node? id = some n → n.attached = true → n.owner = some o →
    ∃ p, m.node? o = some p ∧ p.attached = true ∧ p.children.count id = 1
  shelved : ∀ {id n}, m.node? id = some n → n.attached = true → n.owner = none →
    ∃ l, m.library? n.library = some l ∧ l.members.count id = 1
  child : ∀ {id n c}, m.node? id = some n → c ∈ n.children →
    ∃ k, m.node? c = some k ∧ k.owner = some id ∧ (n.attached = true → k.attached = true)
  member : ∀ {lib l id}, m.library? lib = some l → id ∈ l.members →
    ∃ n, m.node? id = some n ∧ n.attached = true ∧ n.owner = none ∧ n.library = lib

theorem Forest.wellFormed (hf : Forest m) (hs : Shelved m) : WellFormed m where
  owner := by
    intro id n o hn ho
    obtain ⟨p, hp⟩ := hf.owner_exists hn ho
    exact ⟨p, hp, hf.owner_lt hn ho, (hf.same_library hn ho hp).symm⟩
  listed := by
    intro id n o hn ha ho
    obtain ⟨p, hp, hpa, hmem⟩ := hf.listed hn ha ho
    exact ⟨p, hp, hpa, List.count_eq_one_of_mem (hf.nodup hp) hmem⟩
  shelved := by
    intro id n hn ha ho
    obtain ⟨l, hl⟩ := hs.library_exists hn
    exact ⟨l, hl, List.count_eq_one_of_mem (hs.nodup hl) (hs.listed hn ha ho hl)⟩
  child := hf.owned
  member := by
    intro lib l id hl hid
    obtain ⟨n, hn, ho, hlib, ha⟩ := hs.member hl hid
    exact ⟨n, hn, ha, ho, hlib⟩

/-! ### Sequences of operations -/

/-- No operation attaches a node again. -/
theorem detached_apply (hf : Forest m) (hn : m.node? id = some n) (ha : n.attached = false)
    (op : Op) : ∃ n', (op.apply m).node? id = some n' ∧ n'.attached = false := by
  have child {k owner p} (hk : ∃ n, node? k id = some n ∧ n.attached = false)
      (hp : k.node? owner = some p) (kind : NodeKind) (name : String) :
      ∃ n, (k.appendChild owner p.library kind name).2.node? id = some n ∧
        n.attached = false := by
    obtain ⟨n, hn, ha⟩ := hk
    obtain ⟨cs, -, hcs⟩ := exists_node?_appendChild hp hn p.library kind name
    exact ⟨_, hcs, ha⟩
  have hop := becomes_apply hf op
  generalize op.apply m = m' at hop
  cases hop with
  | refused | addLibrary => exact ⟨n, hn, ha⟩
  | @addMember library l kind hk hl name =>
    refine appendMember_induct (P := fun k => ∃ n, k.node? id = some n ∧ n.attached = false)
      library kind name ⟨n, ?_, ha⟩ fun _ _ _ kind name hk hp _ => child hk hp kind name
    rw [node?_withMember, if_neg (ne_nextId hn), hn]
  | addChild hp _ kind name => exact child ⟨n, hn, ha⟩ hp kind name
  | @detach x k hk hka =>
    refine ⟨_, node?_without_of_node? hn x k, ?_⟩
    simp [Node.cut, ha]
  | @modify _ x f hf =>
    rw [node?_modifyNode, hn]
    split
    · exact ⟨f n, rfl, (hf n).attached.trans ha⟩
    · exact ⟨n, rfl, ha⟩

theorem shelved_after (hf : Forest m) (hs : Shelved m) {ops : List Op}
    (h : ∀ op ∈ ops, op.Bare) : Shelved (m.after ops) := by
  induction ops generalizing m with
  | nil => exact hs
  | cons op ops ih =>
    refine ih (hf.apply op) (hs.apply hf op (h op List.mem_cons_self)) fun op' hop' => ?_
    exact h op' (List.mem_cons_of_mem _ hop')

theorem detached_after (hf : Forest m) (hn : m.node? id = some n) (ha : n.attached = false)
    (ops : List Op) : ∃ n', (m.after ops).node? id = some n' ∧ n'.attached = false := by
  induction ops generalizing m n with
  | nil => exact ⟨n, hn, ha⟩
  | cons op ops ih =>
    obtain ⟨n', hn', ha'⟩ := detached_apply hf hn ha op
    exact ih (hf.apply op) hn' ha'

/-- Whatever is done to the empty model, by operations that succeed or are refused, the outcome is
well formed. What is detached in it is detached for ever, and the walks over it end on every node,
with the answers of the queries. -/
theorem wellFormed_after {ops : List Op} (h : ∀ op ∈ ops, op.Bare) :
    WellFormed (empty.after ops) ∧
      (∀ more id n, (empty.after ops).node? id = some n → n.attached = false →
        ∃ n', ((empty.after ops).after more).node? id = some n' ∧ n'.attached = false) ∧
      ∀ id n, (empty.after ops).node? id = some n →
        (∃ top, (empty.after ops).memberOf id = .ok top ∧
          ∀ x, Climbs (empty.after ops) x id ↔ x = top) ∧
        (∃ ids, (empty.after ops).subtree id = .ok ids ∧
          ∀ xs, Visits (empty.after ops) [id] xs ↔ xs = ids) ∧
        ∃ name, (empty.after ops).nodeName id = .ok name ∧
          ∀ s, Names (empty.after ops) id s ↔ s = name := by
  have hf := Forest.empty.after ops
  refine ⟨hf.wellFormed (shelved_after .empty .empty h), fun more id n hn ha => ?_,
    fun id n hn => ⟨?_, ?_, ?_⟩⟩
  · exact detached_after hf hn ha more
  · obtain ⟨top, -, hm, -⟩ := hf.exists_memberOf hn
    exact ⟨top, hm, fun x => by rw [hf.climbs_iff hn, hm, Except.ok.injEq, eq_comm]⟩
  · have hs := hf.subtree_eq hn
    exact ⟨_, hs, fun xs => by rw [hf.visits_iff hn, hs, Except.ok.injEq, eq_comm]⟩
  · obtain ⟨name, hname⟩ := hf.exists_nodeName hn
    exact ⟨name, hname, fun s => by rw [hf.names_iff hn, hname, Except.ok.injEq, eq_comm]⟩

/-- An object of which the summary is detached, what is then refused below it and outside of the
model, and references of detached nodes. -/
def opsOnDetached : List Op :=
  [.addLibrary (.draft "Shop" "urn:shop"), .addMember ⟨0⟩ (.member .businessObject) "Order",
    .addChild ⟨2⟩ (.property .element) "Total", .detach ⟨2⟩,
    .addChild ⟨2⟩ (.property .element) "Tax", .addMember ⟨1⟩ (.member .resource) "Orders",
    .setTypeRef ⟨4⟩ (some ⟨0⟩), .setBase ⟨0⟩ (some ⟨0⟩)]

/-- The property below the summary is detached, and stays so. -/
theorem wellFormed_opsOnDetached :
    (∀ op ∈ opsOnDetached, op.Bare) ∧ WellFormed (empty.after opsOnDetached) ∧
      ∀ more, ∃ n, ((empty.after opsOnDetached).after more).node? ⟨4⟩ = some n ∧
        n.attached = false := by
  have hbare : ∀ op ∈ opsOnDetached, op.Bare := by simp [opsOnDetached, Op.Bare, Library.draft]
  obtain ⟨hwell, hdetached, -⟩ := wellFormed_after hbare
  have hgone : ((empty.after opsOnDetached).node? ⟨4⟩).map (·.attached) = some false := by
    decide +kernel
  obtain ⟨n, hn, ha⟩ := Option.map_eq_some_iff.mp hgone
  exact ⟨hbare, hwell, fun more => hdetached more ⟨4⟩ n hn ha⟩

end SchemaEditor.Model
