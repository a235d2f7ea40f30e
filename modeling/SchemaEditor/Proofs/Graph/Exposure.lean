import SchemaEditor.Proofs.Graph.Refusal

/-!
# What is listed under what

A walk over facades goes from the members of libraries to what is listed under them: the children
of a node, and what is contributed into it. Contributions make this a graph with cycles. Nodes
without a kind of facade, which are the extension points, are left out with everything that is only
reached through them. If contributed nodes have no owner, as in the model of a snapshot, then a walk
from the members exposes exactly the supported nodes: those with no extension point among themselves
and their owners.
-/

namespace SchemaEditor

section Matching

variable {α β : Type} {R : α → β → Prop} {as : List α} {bs : List β} {a : α} {b : β}

theorem exists_right_of_mem (h : List.Forall₂ R as bs) (ha : a ∈ as) : ∃ b ∈ bs, R a b := by
  induction h with
  | nil => cases ha
  | cons hab _ ih =>
    obtain rfl | ha := List.mem_cons.mp ha
    · exact ⟨_, List.mem_cons_self, hab⟩
    · obtain ⟨b, hb, hR⟩ := ih ha
      exact ⟨b, List.mem_cons_of_mem _ hb, hR⟩

theorem exists_left_of_mem (h : List.Forall₂ R as bs) (hb : b ∈ bs) : ∃ a ∈ as, R a b :=
  exists_right_of_mem (R := flip R) (.flip h) hb

end Matching

theorem Facade.Kind.ofNode?_eq_none_iff {kind : NodeKind} :
    Facade.Kind.ofNode? kind = none ↔ kind = .extensionPoint := by
  cases kind <;> simp [Facade.Kind.ofNode?]

theorem Facade.Kind.ofNode?_eq_facet_iff {kind : NodeKind} {role : FacetRole} :
    Facade.Kind.ofNode? kind = some (.facet role) ↔ kind = .facet role := by
  cases kind <;> simp [Facade.Kind.ofNode?]

namespace Model

variable {m : Model} {x y o : NodeId} {n : Node} {roots : List NodeId} {l : Library}

/-- Nodes that exist, each once, are no more than there are. -/
theorem length_le_size {nodes : List NodeId} (hnodup : nodes.Nodup)
    (h : ∀ x ∈ nodes, ∃ n, m.node? x = some n) : nodes.length ≤ m.nodes.size := by
  have hsub : nodes ⊆ m.nodeIds := fun x hx => by
    obtain ⟨n, hn⟩ := h x hx
    exact mem_nodeIds.mpr (lt_of_node? hn)
  simpa [nodeIds] using hnodup.length_le_of_subset hsub

/-- If there are no more nodes than these, then no other node exists. -/
theorem mem_of_size_le {nodes : List NodeId} (hnodup : nodes.Nodup)
    (h : ∀ y ∈ nodes, ∃ n, m.node? y = some n) (hle : m.nodes.size ≤ nodes.length)
    (hn : m.node? x = some n) : x ∈ nodes := by
  by_contra hx
  have hmore : ∀ y ∈ x :: nodes, ∃ n, m.node? y = some n := by
    rintro y (_ | ⟨_, hy⟩)
    · exact ⟨n, hn⟩
    · exact h y hy
  have hlength := length_le_size (List.nodup_cons.mpr ⟨hx, hnodup⟩) hmore
  rw [List.length_cons] at hlength
  omega

/-! ### Supported nodes -/

/-- A node with a kind of facade. -/
def Faced (m : Model) (x : NodeId) : Prop := ∃ kind, m.facadeKind? x = some kind

theorem faced_iff (hn : m.node? x = some n) : m.Faced x ↔ n.kind ≠ .extensionPoint := by
  rw [Faced, facadeKind?_of_node? hn, ← Option.isSome_iff_exists, Option.isSome_iff_ne_none, ne_eq,
    Facade.Kind.ofNode?_eq_none_iff]

/-- The nodes among some that have a kind of facade. -/
def facedAmong (m : Model) (nodes : List NodeId) : List NodeId :=
  nodes.filter fun x => (m.facadeKind? x).isSome

theorem mem_facedAmong {nodes : List NodeId} :
    x ∈ m.facedAmong nodes ↔ x ∈ nodes ∧ m.Faced x := by
  rw [facedAmong, List.mem_filter, Option.isSome_iff_exists]
  rfl

theorem facedAmong_append (nodes nodes' : List NodeId) :
    m.facedAmong (nodes ++ nodes') = m.facedAmong nodes ++ m.facedAmong nodes' :=
  List.filter_append ..

theorem facedAmong_eq_self {nodes : List NodeId} (h : ∀ x ∈ nodes, m.Faced x) :
    m.facedAmong nodes = nodes :=
  List.filter_eq_self.mpr fun x hx => Option.isSome_iff_exists.mpr (h x hx)

/-- A node is supported if there is no extension point on the way from it to its member. -/
def Supported (m : Model) (x : NodeId) : Prop :=
  (∃ n, m.node? x = some n) ∧ ∀ top n, Under m top x → m.node? top = some n →
    n.kind ≠ .extensionPoint

theorem Supported.faced (h : m.Supported x) : m.Faced x := by
  obtain ⟨⟨n, hn⟩, h⟩ := h
  exact (faced_iff hn).mpr (h x n .self hn)

theorem Supported.of_owner (hn : m.node? x = some n) (ho : n.owner = some o)
    (h : m.Supported o) (hx : m.Faced x) : m.Supported x := by
  refine ⟨⟨n, hn⟩, fun top t hup ht => ?_⟩
  cases hup with
  | self => exact (faced_iff ht).mp hx
  | owned hn' ho' hup =>
    obtain rfl := Option.some.inj (hn.symm.trans hn')
    obtain rfl := Option.some.inj (ho.symm.trans ho')
    exact h.2 top t hup ht

theorem Supported.owner (hf : Forest m) (hn : m.node? x = some n) (ho : n.owner = some o)
    (h : m.Supported x) : m.Supported o :=
  ⟨hf.owner_exists hn ho, fun top t hup ht => h.2 top t (.owned hn ho hup) ht⟩

theorem supported_of_root (hn : m.node? x = some n) (ho : n.owner = none) (hx : m.Faced x) :
    m.Supported x := by
  refine ⟨⟨n, hn⟩, fun top t hup ht => ?_⟩
  cases hup with
  | self => exact (faced_iff ht).mp hx
  | owned hn' ho' _ =>
    obtain rfl := Option.some.inj (hn.symm.trans hn')
    cases ho.symm.trans ho'

/-! ### Walks -/

/-- The members of some libraries, in order. -/
def membersOf (m : Model) (ids : List LibraryId) : List NodeId :=
  ids.flatMap fun id => (m.library? id).toList.flatMap (·.members)

theorem membersOf_cons {lib : LibraryId} (hl : m.library? lib = some l) (ids : List LibraryId) :
    m.membersOf (lib :: ids) = l.members ++ m.membersOf ids := by
  simp [membersOf, hl]

theorem mem_membersOf {ids : List LibraryId} :
    x ∈ m.membersOf ids ↔ ∃ lib ∈ ids, ∃ l, m.library? lib = some l ∧ x ∈ l.members := by
  simp [membersOf]

/-- The nodes listed under a node: its children, then what is contributed into it. -/
def offspring (m : Model) (x : NodeId) : List NodeId :=
  ((m.node? x).toList.flatMap (·.children)) ++ m.contributions x

theorem offspring_of_node? (hn : m.node? x = some n) :
    m.offspring x = n.children ++ m.contributions x := by
  simp [offspring, hn]

/-- The nodes with facades that are listed under a node, each once. -/
def listedUnder (m : Model) (x : NodeId) : List NodeId := m.facedAmong (m.offspring x).eraseDups

theorem mem_listedUnder : y ∈ m.listedUnder x ↔ y ∈ m.offspring x ∧ m.Faced y := by
  rw [listedUnder, mem_facedAmong, List.mem_eraseDups]

/-- A node is exposed by a walk from some nodes if it is one of them and has a kind of facade, or is
listed under an exposed node. -/
inductive Exposed (m : Model) (roots : List NodeId) : NodeId → Prop
  | root {x : NodeId} (hx : x ∈ roots) (hf : m.Faced x) : Exposed m roots x
  | listed {x y : NodeId} (h : Exposed m roots x) (hy : y ∈ m.listedUnder x) : Exposed m roots y

namespace Exposed

theorem of_mem_facedAmong (h : x ∈ m.facedAmong roots) : m.Exposed roots x := by
  obtain ⟨hroot, hfaced⟩ := mem_facedAmong.mp h
  exact .root hroot hfaced

theorem faced (h : m.Exposed roots x) : m.Faced x := by
  cases h with
  | root _ hf => exact hf
  | listed _ hy => exact (mem_listedUnder.mp hy).2

theorem mono {roots' : List NodeId} (h : m.Exposed roots x) (hsub : roots ⊆ roots') :
    m.Exposed roots' x := by
  induction h with
  | root hx hf => exact .root (hsub hx) hf
  | listed _ hy ih => exact .listed ih hy

/-- From members on, and if what contributes is itself a member, a walk exposes only supported
nodes. -/
theorem supported (hf : Forest m) (h : m.Exposed roots x)
    (hroots : ∀ x ∈ roots, ∃ n, m.node? x = some n ∧ n.owner = none)
    (hcontributed : ∀ {x n}, m.node? x = some n → n.contributesTo ≠ none → n.owner = none) :
    m.Supported x := by
  induction h with
  | root hx hfaced =>
    obtain ⟨n, hn, ho⟩ := hroots _ hx
    exact supported_of_root hn ho hfaced
  | @listed x y h hy ih =>
    obtain ⟨hy, hfaced⟩ := mem_listedUnder.mp hy
    obtain ⟨n, hn⟩ := ih.1
    rw [offspring_of_node? hn, List.mem_append] at hy
    obtain hy | hy := hy
    · obtain ⟨k, hk, ho, -⟩ := hf.owned hn hy
      exact .of_owner hk ho ih hfaced
    · obtain ⟨k, hk, htarget⟩ := exists_target_of_mem_contributions hy
      exact supported_of_root hk (hcontributed hk (by simp [htarget])) hfaced

/-- A supported node that is attached is exposed from the members of its library. -/
theorem of_supported (hf : Forest m) (hs : Shelved m) {x : NodeId} {n : Node}
    (hn : m.node? x = some n)
    (ha : n.attached = true) (hl : m.library? n.library = some l) (h : m.Supported x) :
    m.Exposed l.members x := by
  cases ho : n.owner with
  | none => exact .root (hs.listed hn ha ho hl) h.faced
  | some o =>
    have hlt := hf.owner_lt hn ho
    obtain ⟨p, hp, hpa, hmem⟩ := hf.listed hn ha ho
    rw [hf.same_library hn ho hp] at hl
    have hexposed := of_supported hf hs hp hpa hl (h.owner hf hn ho)
    have hoffspring : x ∈ m.offspring o := offspring_of_node? hp ▸ List.mem_append_left _ hmem
    exact .listed hexposed (mem_listedUnder.mpr ⟨hoffspring, h.faced⟩)
termination_by x.index

end Exposed

/-- In a whole model where what contributes is itself a member, a walk from all members exposes what
is supported. -/
theorem Whole.exposed_iff (hw : Whole m)
    (hcontributed : ∀ {x n}, m.node? x = some n → n.contributesTo ≠ none → n.owner = none) :
    m.Exposed (m.membersOf m.libraryIds) x ↔ m.Supported x := by
  constructor
  · refine fun h => h.supported hw.forest (fun y hy => ?_) hcontributed
    obtain ⟨lib, -, l, hl, hmember⟩ := mem_membersOf.mp hy
    obtain ⟨n, hn, ho, -⟩ := hw.shelved.member hl hmember
    exact ⟨n, hn, ho⟩
  · intro h
    obtain ⟨n, hn⟩ := h.1
    obtain ⟨l, hl⟩ := hw.shelved.library_exists hn
    exact (Exposed.of_supported hw.forest hw.shelved hn (hw.attached hn) hl h).mono
      fun y hy => mem_membersOf.mpr ⟨_, mem_libraryIds hl, l, hl, hy⟩

end Model

/-! ### Facades on a walk -/

namespace Graph

open Outcome (bind_ok)

variable {P : Graph → Change → Prop} {g g' : Graph} {f f' : FacadeId} {x : NodeId}
variable {nodes : List NodeId} {ids : List FacadeId} {lib : LibraryId} {l : Library}

/-- A facade stands for a node. -/
def Stands (g : Graph) (f : FacadeId) (x : NodeId) : Prop :=
  ∃ kind, g.facades.entry? f = some ⟨x, kind⟩

namespace Stands

theorem of_evolves (h : g.Stands f x) (hev : Evolves P g g') : g'.Stands f x := by
  obtain ⟨kind, he⟩ := h
  exact ⟨kind, hev.facades_continue.entry he⟩

theorem node_unique {y : NodeId} (h : g.Stands f x) (h' : g.Stands f y) : x = y := by
  obtain ⟨kind, he⟩ := h
  obtain ⟨kind', he'⟩ := h'
  exact congrArg Facade.Entry.node (Option.some.inj (he.symm.trans he'))

theorem facade_unique (hg : Managed g) (h : g.Stands f x) (h' : g.Stands f' x) : f = f' := by
  obtain ⟨kind, he⟩ := h
  obtain ⟨kind', he'⟩ := h'
  exact hg.facades.distinct he he' rfl

theorem biUnique (hg : Managed g) : Relator.BiUnique g.Stands :=
  ⟨fun _ _ _ h h' => h.facade_unique hg h', fun _ _ _ h h' => h.node_unique h'⟩

theorem entry (hg : Managed g) (h : g.Stands f x) : ∃ n kind, g.model.node? x = some n ∧
    Facade.Kind.ofNode? n.kind = some kind ∧ g.facades.entry? f = some ⟨x, kind⟩ := by
  obtain ⟨kind, he⟩ := h
  obtain ⟨n, hn, hk⟩ := Model.facadeKind?_eq_some_iff.mp (hg.facades.known he)
  exact ⟨n, kind, hn, hk, he⟩

theorem faced (hg : Managed g) (h : g.Stands f x) : g.model.Faced x := by
  obtain ⟨kind, he⟩ := h
  exact ⟨kind, hg.facades.known he⟩

end Stands

/-- Facades that all stand for something stand for the nodes of a list. -/
theorem exists_forall₂_stands (h : ∀ f ∈ ids, ∃ x, g.Stands f x) :
    ∃ xs, List.Forall₂ g.Stands ids xs := by
  induction ids with
  | nil => exact ⟨[], .nil⟩
  | cons f ids ih =>
    obtain ⟨x, hx⟩ := h f List.mem_cons_self
    obtain ⟨xs, hxs⟩ := ih fun f hf => h f (List.mem_cons_of_mem _ hf)
    exact ⟨x :: xs, .cons hx hxs⟩

/-- If there are as many facades as nodes, no other facade stands for anything. -/
theorem mem_of_size_le (hg : Managed g) (hnodup : ids.Nodup) (h : ∀ f ∈ ids, ∃ x, g.Stands f x)
    (hle : g.model.nodes.size ≤ ids.length) (hf : g.Stands f x) : f ∈ ids := by
  obtain ⟨xs, hxs⟩ := exists_forall₂_stands h
  have hexist : ∀ y ∈ xs, ∃ n, g.model.node? y = some n := fun y hy => by
    obtain ⟨f', -, hf'⟩ := exists_left_of_mem hxs hy
    obtain ⟨n, -, hn, -⟩ := hf'.entry hg
    exact ⟨n, hn⟩
  obtain ⟨n, -, hn, -⟩ := hf.entry hg
  have hmem : x ∈ xs := Model.mem_of_size_le ((List.rel_nodup (Stands.biUnique hg) hxs).mp hnodup)
    hexist (hxs.length_eq ▸ hle) hn
  obtain ⟨f', hf', hstands⟩ := exists_left_of_mem hxs hmem
  exact hf.facade_unique hg hstands ▸ hf'

/-- The facades that were handed out for nodes stand for those of them that have a kind of facade,
in order. -/
theorem Wraps.forall₂_stands (hg : Managed g) (h : g.Wraps nodes ids) :
    List.Forall₂ g.Stands ids (g.model.facedAmong nodes) := by
  obtain ⟨rfl, hcomplete⟩ := h
  induction nodes with
  | nil => exact .nil
  | cons x nodes ih =>
    have ih := ih fun y hy => hcomplete y (List.mem_cons_of_mem _ hy)
    obtain ⟨n, hn, hnone⟩ := hcomplete x List.mem_cons_self
    cases hget : g.facades.get? x with
    | none =>
      have hk : g.model.facadeKind? x = none :=
        (Model.facadeKind?_of_node? hn).trans (hnone hget)
      rwa [List.filterMap_cons_none hget, Model.facedAmong, List.filter_cons_of_neg (by simp [hk])]
    | some f =>
      obtain ⟨⟨_, kind⟩, he, rfl⟩ := hg.facades.get?_eq_some_iff.mp hget
      have hk := hg.facades.known he
      rw [List.filterMap_cons_some hget, Model.facedAmong, List.filter_cons_of_pos (by simp [hk])]
      exact .cons ⟨kind, he⟩ ih

theorem exists_wrapAll (hg : Managed g) (hnodes : ∀ x ∈ nodes, ∃ n, g.model.node? x = some n) :
    ∃ ids g', wrapAll nodes g = .ok ids g' ∧ Evolves IsRegister g g' ∧
      List.Forall₂ g'.Stands ids (g.model.facedAmong nodes.eraseDups) := by
  obtain ⟨ids, g', hrun, hev⟩ :=
    wrapDistinct_succeeds hg fun x hx => hnodes x (List.mem_eraseDups.mp hx)
  refine ⟨ids, g', hrun, hev, ?_⟩
  rw [← hev.model_eq]
  exact (wrapAll_wraps hg hrun).forall₂_stands (hev.managed hg)

/-- The facades under a facade stand for what is listed under its node. -/
theorem exists_children (hg : Managed g) (h : g.Stands f x) :
    ∃ ids g', children f g = .ok ids g' ∧ Evolves IsRegister g g' ∧
      List.Forall₂ g'.Stands ids (g.model.listedUnder x) := by
  obtain ⟨n, kind, hn, -, he⟩ := h.entry hg
  have hnodes : ∀ y ∈ n.children ++ g.model.contributions x, ∃ k, g.model.node? y = some k := by
    intro y hy
    obtain hy | hy := List.mem_append.mp hy
    · obtain ⟨k, hk, -⟩ := hg.forest.owned hn hy
      exact ⟨k, hk⟩
    · exact Model.exists_node?_of_mem_contributions hy
  obtain ⟨ids, g', hrun, hev, hstands⟩ := exists_wrapAll hg hnodes
  rw [← Model.offspring_of_node? hn] at hstands
  refine ⟨ids, g', ?_, hev, hstands⟩
  rw [children, bind_ok (ask_of_ok (nodeOf_of_entry he)),
    bind_ok (ask_of_ok (ofModelResult_of_ok (Model.node_of_node? hn)))]
  exact hrun

theorem eraseDups_of_nodup (h : nodes.Nodup) : nodes.eraseDups = nodes := by
  induction nodes with
  | nil => rfl
  | cons x nodes ih =>
    obtain ⟨hx, h⟩ := List.nodup_cons.mp h
    have hkeep : nodes.filter (fun y => !y == x) = nodes :=
      List.filter_eq_self.mpr fun y hy => by
        simpa using fun hyx : y = x => hx (hyx ▸ hy)
    rw [List.eraseDups_cons, hkeep, ih h]

/-- The facades of the members of a library. -/
theorem exists_members (hg : Managed g) (hs : Model.Shelved g.model)
    (hl : g.model.library? lib = some l) :
    ∃ ids g', members lib g = .ok ids g' ∧ Evolves IsRegister g g' ∧
      List.Forall₂ g'.Stands ids (g.model.facedAmong l.members) := by
  have hnodes : ∀ x ∈ l.members, ∃ n, g.model.node? x = some n := fun x hx => by
    obtain ⟨n, hn, -⟩ := hs.member hl hx
    exact ⟨n, hn⟩
  obtain ⟨ids, g', hrun, hev, hstands⟩ := exists_wrapAll hg hnodes
  rw [eraseDups_of_nodup (hs.nodup hl)] at hstands
  refine ⟨ids, g', ?_, hev, hstands⟩
  rw [members, bind_ok (ask_of_ok (ofModelResult_of_ok (Model.library_eq_ok_iff.mpr hl)))]
  exact hrun

end Graph

namespace Snapshot

/-- Two facets that are contributed into each other, beside an extension point. -/
def notesInCircle : Snapshot :=
  shop
    [{ Member.object "Notes" none [] with
      kind := .member (.contextualFacet .custom)
      contributesTo := some "Remarks"
      facets := .empty },
    { Member.object "Remarks" none [] with
      kind := .member (.contextualFacet .custom)
      contributesTo := some "Notes"
      facets := .empty },
    { Member.object "Spare" none [] with
      kind := .extensionPoint
      facets := .empty }]

end Snapshot

end SchemaEditor
