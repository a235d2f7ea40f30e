import SchemaEditor.Proofs.Model.Building
import SchemaEditor.Proofs.Model.Nesting
import SchemaEditor.Proofs.Snapshot.Declaration

/-!
# Reading a snapshot

The first half of a load adds the declared nodes in order and enters each under its key. `Reads`
says what has been read so far: the nodes in the table are those of the declarations, position by
position, no reference is set yet, and all texts of references were noted, or are waiting to be.
Each part of a member adds its declarations, so a member, a library and the whole snapshot do.
-/

namespace SchemaEditor.Snapshot

open Model (Layered Nested)
open Outcome (bind_eq_ok_iff)

theorem getElem?_append_singleton_eq_some_iff {α : Type} {xs : List α} {x a : α} {i : Nat} :
    (xs ++ [x])[i]? = some a ↔ xs[i]? = some a ∨ i = xs.length ∧ x = a := by
  rcases Nat.lt_trichotomy i xs.length with h | rfl | h
  · rw [List.getElem?_append_left h]
    exact ⟨.inl, fun h' => h'.resolve_right fun ⟨he, _⟩ => by omega⟩
  · simp
  · rw [List.getElem?_eq_none (by simp; omega), List.getElem?_eq_none (by omega)]
    simp
    omega

theorem Keys.getElem?_insert (keys : Keys) (key k : String) (node : NodeId) :
    (keys.insert key node)[k]? = if key = k then some node else keys[k]? := by
  simp only [Std.TreeMap.getElem?_insert, Std.LawfulEqOrd.compare_eq_iff_eq]

/-- The table has the declared keys and no others, for the nodes at their positions. -/
def Keys.Lists (keys : Keys) (ds : List Declaration) : Prop :=
  ∀ (key : String) (id : NodeId), keys[key]? = some id ↔ (ds.map (·.key))[id.index]? = some key

namespace Keys.Lists

variable {keys : Keys} {ds : List Declaration} {d : Declaration}

theorem getElem?_key (h : keys.Lists ds) {i : Nat} (hd : ds[i]? = some d) :
    keys[d.key]? = some ⟨i⟩ :=
  (h d.key ⟨i⟩).mpr (by simp [hd])

/-- What is entered under a free key comes last. -/
theorem insert (h : keys.Lists ds) (hfree : keys[d.key]? = none) :
    Keys.Lists (keys.insert d.key ⟨ds.length⟩) (ds ++ [d]) := by
  intro key id
  rw [Keys.getElem?_insert, List.map_append, List.map_singleton,
    getElem?_append_singleton_eq_some_iff, ← h, List.length_map]
  by_cases hk : d.key = key
  · subst hk
    rw [if_pos rfl, hfree, Option.some.injEq]
    constructor
    · rintro rfl
      exact .inr ⟨rfl, rfl⟩
    · rintro (hnone | ⟨hid, -⟩)
      · cases hnone
      · exact congrArg NodeId.mk hid.symm
  · simp [hk]

end Keys.Lists

/-- The references that a declaration asks for, once its node is known. -/
def Declaration.pending (d : Declaration) (node : NodeId) : List Pending :=
  [Target.type, .base, .contribution].flatMap fun t => ((d.text t).map (⟨node, t, ·⟩)).toList

theorem Declaration.mem_pending_iff {d : Declaration} {node : NodeId} {p : Pending} :
    p ∈ d.pending node ↔ p.node = node ∧ d.text p.target = some p.key := by
  obtain ⟨x, t, k⟩ := p
  simp only [pending, List.mem_flatMap, Option.mem_toList, Option.map_eq_some_iff,
    Pending.mk.injEq]
  constructor
  · rintro ⟨_, -, _, hk, rfl, rfl, rfl⟩
    exact ⟨rfl, hk⟩
  · rintro ⟨rfl, hk⟩
    exact ⟨t, by cases t <;> simp, k, hk, rfl, rfl, rfl⟩

theorem Declaration.pending_eq (d : Declaration) (node : NodeId) :
    d.pending node = (d.typeKey.map (⟨node, .type, ·⟩)).toList ++
      ((d.baseKey.map (⟨node, .base, ·⟩)).toList ++
        (d.contributesTo.map (⟨node, .contribution, ·⟩)).toList) := by
  simp [pending, text]

/-- A node has a kind and a name. -/
def Bears (m : Model) (node : NodeId) (kind : NodeKind) (name : String) : Prop :=
  ∃ n, m.node? node = some n ∧ n.kind = kind ∧ n.name = name

theorem Bears.modifyNode {m : Model} {x : NodeId} {kind : NodeKind} {name : String}
    (h : Bears m x kind name) (node : NodeId) {f : Node → Node}
    (hf : ∀ n : Node, n.SamePlace (f n)) (hname : ∀ n, (f n).name = n.name) :
    Bears (m.modifyNode node f) x kind name := by
  obtain ⟨n, hn, hkind, hn'⟩ := h
  rw [Bears, Model.node?_modifyNode, hn]
  split
  · exact ⟨f n, rfl, (hf n).kind.trans hkind, (hname n).trans hn'⟩
  · exact ⟨n, rfl, hkind, hn'⟩

/-- A load has read the declarations `ds` into the libraries `ls`; references are still waiting to
be noted, and the last `fresh` nodes to be entered. -/
structure Reads (l : Loader) (ls : List SchemaEditor.Library) (ds : List Declaration)
    (waiting : List Pending) (fresh : Nat) : Prop where
  builtins : l.builder.builtins = none
  libraries : l.builder.model.libraries.toList = ls
  size : l.builder.model.nodes.size = ds.length + fresh
  keys : l.keys.Lists ds
  bears : ∀ i d, ds[i]? = some d → Bears l.builder.model ⟨i⟩ d.kind d.name
  blank : ∀ id n, l.builder.model.node? id = some n → ∀ t : Target, t.reference n = none
  layered : Layered l.builder.model
  nested : Nested l.builder.model
  pending : ∀ p, p ∈ l.pending ∨ p ∈ waiting ↔
    ∃ d, ds[p.node.index]? = some d ∧ d.text p.target = some p.key

variable {l l' : Loader} {ls : List SchemaEditor.Library} {ds : List Declaration}
variable {waiting : List Pending} {fresh : Nat} {node owner : NodeId} {kind : NodeKind}
variable {name key : String}

theorem reference_fresh (t : Target) (kind : NodeKind) (library : LibraryId)
    (owner : Option NodeId) (name : String) :
    t.reference (.fresh kind library owner name) = none := by
  cases t <;> rfl

/-- A step of the builder leaves the rest of a load as it is. -/
theorem build_eq_ok_iff {α : Type} {a : α} {step : Builder → Except Model.Error (α × Builder)} :
    l.build step = .ok (a, l') ↔
      ∃ b, step l.builder = .ok (a, b) ∧ l' = { l with builder := b } := by
  unfold Loader.build
  constructor
  · intro h
    split at h
    · next a' b hstep =>
      obtain ⟨rfl, rfl⟩ := Prod.mk.inj (Except.ok.inj h)
      exact ⟨b, hstep, rfl⟩
    · cases h
  · rintro ⟨b, hstep, rfl⟩
    rw [hstep]

namespace Reads

theorem start : Reads .start [] [] [] 0 where
  builtins := rfl
  libraries := rfl
  size := rfl
  keys := by simp [Loader.start, Keys.Lists]
  bears := by simp
  blank := fun id n hn => by simp [Loader.start, Builder.empty, Model.node?, Model.empty] at hn
  layered := .empty
  nested := .empty
  pending := by simp [Loader.start]

/-- A declaration that was read keeps its key when more has been read. -/
theorem getElem?_key_of_append {ls' : List SchemaEditor.Library} {more : List Declaration}
    {waiting' : List Pending} {fresh' : Nat} (h : Reads l ls ds waiting fresh)
    (h' : Reads l' ls' (ds ++ more) waiting' fresh') {d : Declaration} (hd : d ∈ ds) :
    l'.keys[d.key]? = l.keys[d.key]? := by
  obtain ⟨i, hi⟩ := List.mem_iff_getElem?.mp hd
  have hlt := (List.getElem?_eq_some_iff.mp hi).1
  rw [h.keys.getElem?_key hi, h'.keys.getElem?_key ((List.getElem?_append_left hlt).trans hi)]

/-! ### Steps -/

/-- A child is added that is neither a facet nor a member. -/
theorem child (h : Reads l ls ds waiting 0)
    (hk : kind.isFacet = false ∧ kind.isMember = false)
    (hb : l.build (fun b => b.child owner kind name) = .ok (node, l')) :
    Reads l' ls ds waiting 1 ∧ node = ⟨ds.length⟩ ∧ Bears l'.builder.model node kind name := by
  obtain ⟨b, hchild, rfl⟩ := build_eq_ok_iff.mp hb
  obtain ⟨hadd, hbuiltins⟩ := Builder.model_of_child hchild
  obtain ⟨o, ho, -, he⟩ := Model.addChild_eq_ok_iff.mp hadd
  have hm : b.model = (l.builder.model.appendChild owner o.library kind name).2 :=
    congrArg Prod.snd he
  obtain rfl : node = l.builder.model.nextId := congrArg Prod.fst he
  have hnew : l.builder.model.nextId = ⟨ds.length⟩ := congrArg NodeId.mk h.size
  refine ⟨?_, hnew, .fresh kind o.library (some owner) name, ?_, rfl, rfl⟩
  · constructor
    case builtins => exact hbuiltins.trans h.builtins
    case libraries =>
      show b.model.libraries.toList = ls
      rw [hm, Model.appendChild_libraries, h.libraries]
    case size =>
      show b.model.nodes.size = _
      rw [hm]
      simp [Model.appendChild_snd, h.size]
    case keys => exact h.keys
    case bears =>
      intro i d hd
      obtain ⟨n, hn, hkind, hname⟩ := h.bears i d hd
      obtain ⟨cs, -, hcs⟩ := Model.exists_node?_appendChild ho hn o.library kind name
      refine ⟨{ n with children := cs }, ?_, hkind, hname⟩
      show b.model.node? _ = _
      rw [hm, hcs]
    case blank =>
      intro id n hn t
      replace hn : b.model.node? id = some n := hn
      rw [hm] at hn
      obtain ⟨-, rfl⟩ | ⟨-, rfl⟩ | ⟨-, hn⟩ := Model.appendChild_cases ho hn
      · exact reference_fresh ..
      · have hsame : t.reference { o with children := o.children ++ [l.builder.model.nextId] } =
            t.reference o := by
          cases t <;> rfl
        exact hsame.trans (h.blank _ o ho t)
      · exact h.blank id n hn t
    case layered =>
      show b.model.Layered
      rw [hm]
      exact h.layered.appendChild ho hk.1 name
    case nested =>
      show b.model.Nested
      rw [hm]
      exact h.nested.appendChild ho hk name
    case pending => exact h.pending
  · show b.model.node? _ = _
    rw [hm]
    exact (Model.node?_appendChild ho ..).trans (if_pos rfl)

/-- Texts and flags of a node are set. -/
theorem refine (h : Reads l ls ds waiting fresh) (node : NodeId) {f : Node → Node}
    (hf : ∀ n : Node, n.SamePlace (f n)) (hname : ∀ n, (f n).name = n.name)
    (hr : ∀ n, ∀ t : Target, t.reference (f n) = t.reference n) :
    Reads (l.refine node f) ls ds waiting fresh ∧
      ∀ {x kind name}, Bears l.builder.model x kind name →
        Bears (l.refine node f).builder.model x kind name := by
  have hbears {x kind name} (hx : Bears l.builder.model x kind name) :
      Bears (l.builder.model.modifyNode node f) x kind name := hx.modifyNode node hf hname
  refine ⟨?_, hbears⟩
  constructor
  case builtins => exact h.builtins
  case libraries => exact h.libraries
  case size => exact (Model.modifyNode_size ..).trans h.size
  case keys => exact h.keys
  case bears => exact fun i d hd => hbears (h.bears i d hd)
  case blank =>
    intro id n hn t
    obtain ⟨k, -, hk, rfl⟩ | ⟨-, hk⟩ := Model.modifyNode_cases hn
    · exact (hr k t).trans (h.blank id k hk t)
    · exact h.blank id n hk t
  case layered => exact h.layered.modifyNode node hf
  case nested => exact h.nested.modifyNode node hf
  case pending => exact h.pending

/-- The next node is entered; its references are waiting. -/
theorem enter (h : Reads l ls ds waiting (fresh + 1)) {d : Declaration}
    (he : l.enter d.key node = .ok l') (hnode : node = ⟨ds.length⟩)
    (hb : Bears l.builder.model node d.kind d.name) :
    Reads l' ls (ds ++ [d]) (d.pending node ++ waiting) fresh ∧
      l'.builder.model = l.builder.model := by
  unfold Loader.enter at he
  split at he
  · cases he
  · next hfree =>
    obtain rfl := Except.ok.inj he
    have hfree : l.keys[d.key]? = none :=
      Std.TreeMap.getElem?_eq_none_of_contains_eq_false (eq_false_of_ne_true hfree)
    refine ⟨?_, rfl⟩
    constructor
    case builtins => exact h.builtins
    case libraries => exact h.libraries
    case size =>
      rw [h.size, List.length_append, List.length_singleton]
      omega
    case keys => exact hnode ▸ h.keys.insert hfree
    case bears =>
      intro i d' hd'
      obtain hd' | ⟨rfl, rfl⟩ := getElem?_append_singleton_eq_some_iff.mp hd'
      · exact h.bears i d' hd'
      · exact hnode ▸ hb
    case blank => exact h.blank
    case layered => exact h.layered
    case nested => exact h.nested
    case pending =>
      intro p
      constructor
      · rintro (hp | hp)
        · obtain ⟨d', hd', ht⟩ := (h.pending p).mp (.inl hp)
          exact ⟨d', getElem?_append_singleton_eq_some_iff.mpr (.inl hd'), ht⟩
        · obtain hp | hp := List.mem_append.mp hp
          · obtain ⟨hp, ht⟩ := Declaration.mem_pending_iff.mp hp
            have hi : p.node.index = ds.length := by rw [hp, hnode]
            exact ⟨d, getElem?_append_singleton_eq_some_iff.mpr (.inr ⟨hi, rfl⟩), ht⟩
          · obtain ⟨d', hd', ht⟩ := (h.pending p).mp (.inr hp)
            exact ⟨d', getElem?_append_singleton_eq_some_iff.mpr (.inl hd'), ht⟩
      · rintro ⟨d', hd', ht⟩
        obtain hd' | ⟨hi, rfl⟩ := getElem?_append_singleton_eq_some_iff.mp hd'
        · exact ((h.pending p).mpr ⟨d', hd', ht⟩).imp_right (List.mem_append_right _)
        · have hp : p.node = node := hnode ▸ congrArg NodeId.mk hi
          exact .inr (List.mem_append_left _ (Declaration.mem_pending_iff.mpr ⟨hp, ht⟩))

/-- A reference that was waiting is noted, if there is one. -/
theorem defer {t : Target} {text : Option String}
    (h : Reads l ls ds ((text.map (⟨node, t, ·⟩)).toList ++ waiting) fresh) :
    Reads (l.defer node t text) ls ds waiting fresh := by
  cases text with
  | none => exact h
  | some key =>
    refine { h with pending := fun p => (Iff.symm ?_).trans (h.pending p) }
    simp only [Loader.defer, Option.map_some, Option.toList_some, List.mem_append,
      List.mem_singleton, or_assoc]

/-- What each round of a loop declares, all rounds declare one after the other. -/
theorem each {α : Type} {step : Loader → α → Except Error Loader}
    {decls : α → List Declaration} {as : List α}
    (hstep : ∀ {l ds a l'}, Reads l ls ds waiting 0 → step l a = .ok l' →
      Reads l' ls (ds ++ decls a) waiting 0)
    (h : Reads l ls ds waiting 0) (hl : as.foldlM step l = .ok l') :
    Reads l' ls (ds ++ as.flatMap decls) waiting 0 := by
  induction as generalizing l ds with
  | nil =>
    obtain rfl := Except.ok.inj hl
    simpa using h
  | cons a as ih =>
    rw [List.foldlM_cons] at hl
    obtain ⟨l₁, ha, hl⟩ := bind_eq_ok_iff.mp hl
    rw [List.flatMap_cons, ← List.append_assoc]
    exact ih (hstep h ha) hl

theorem each_one {α : Type} {step : Loader → α → Except Error Loader} {decl : α → Declaration}
    {as : List α}
    (hstep : ∀ {l ds a l'}, Reads l ls ds waiting 0 → step l a = .ok l' →
      Reads l' ls (ds ++ [decl a]) waiting 0)
    (h : Reads l ls ds waiting 0) (hl : as.foldlM step l = .ok l') :
    Reads l' ls (ds ++ as.map decl) waiting 0 := by
  rw [List.map_eq_flatMap]
  exact h.each hstep hl

/-! ### Parts of a member -/

theorem enter_of_defer {t : Target} {text : Option String} {x : NodeId}
    (h : (l.defer node t text).enter key x = .ok l') :
    ∃ l₁, l.enter key x = .ok l₁ ∧ l' = l₁.defer node t text := by
  cases text with
  | none => exact ⟨l', h, rfl⟩
  | some text =>
    cases htaken : l.keys.contains key with
    | true => simp [Loader.defer, Loader.enter, htaken] at h
    | false =>
      refine ⟨{ l with keys := l.keys.insert key x }, by simp [Loader.enter, htaken], ?_⟩
      simpa [Loader.defer, Loader.enter, htaken] using h.symm

variable {memberKey : String}

theorem property {p : Property} (h : Reads l ls ds waiting 0)
    (hp : Loader.property owner memberKey l p = .ok l') :
    Reads l' ls (ds ++ [p.declaration memberKey]) waiting 0 := by
  unfold Loader.property at hp
  split at hp
  · cases hp
  · next hkind =>
    obtain ⟨⟨node, l₁⟩, hb, hp⟩ := bind_eq_ok_iff.mp hp
    obtain ⟨l₂, he, rfl⟩ := enter_of_defer hp
    have hproperty : p.kind.isProperty = true := by simpa using hkind
    obtain ⟨h₁, hnode, hbears⟩ := h.child
      ⟨NodeKind.isFacet_of_isProperty hproperty, NodeKind.isMember_of_isProperty hproperty⟩ hb
    obtain ⟨h₂, hkept⟩ := h₁.refine node
      (f := fun n => { n with
        mandatory := p.mandatory, doc := { n.doc with description := p.description } })
      (fun _ => ⟨rfl, rfl, rfl, rfl, rfl⟩) (fun _ => rfl) fun _ t => by cases t <;> rfl
    obtain ⟨h₃, -⟩ := h₂.enter (d := p.declaration memberKey) he hnode (hkept hbears)
    rw [Declaration.pending_eq, List.append_assoc] at h₃
    exact h₃.defer

theorem section_ {entry : String × List Property} (h : Reads l ls ds waiting 0)
    (hs : Loader.section_ owner memberKey l entry = .ok l') :
    Reads l' ls (ds ++ sectionDeclarations memberKey entry) waiting 0 := by
  unfold Loader.section_ at hs
  split at hs
  · cases hs
  · split at hs
    · cases hs
    · exact h.each_one (fun h hp => h.property hp) hs

theorem part {keyOf : String → String} (h : Reads l ls ds waiting 0)
    (hk : kind.isFacet = false ∧ kind.isMember = false) (hp : Loader.part owner kind keyOf l name = .ok l') :
    Reads l' ls (ds ++ [partDeclaration kind keyOf name]) waiting 0 := by
  obtain ⟨⟨node, l₁⟩, hb, he⟩ := bind_eq_ok_iff.mp hp
  obtain ⟨h₁, hnode, hbears⟩ := h.child hk hb
  exact (h₁.enter (d := partDeclaration kind keyOf name) he hnode hbears).1

theorem payload {actionKey ending : String} {text : Option String}
    (h : Reads l ls ds waiting 0) (hk : kind.isFacet = false ∧ kind.isMember = false)
    (hp : Loader.payload owner actionKey kind ending l text = .ok l') :
    Reads l' ls (ds ++ [payloadDeclaration actionKey kind ending text]) waiting 0 := by
  obtain ⟨⟨node, l₁⟩, hb, hp⟩ := bind_eq_ok_iff.mp hp
  obtain ⟨l₂, he, hp⟩ := bind_eq_ok_iff.mp hp
  obtain rfl := Except.ok.inj hp
  obtain ⟨h₁, hnode, hbears⟩ := h.child hk hb
  obtain ⟨h₂, -⟩ := h₁.enter (d := payloadDeclaration actionKey kind ending text) he hnode hbears
  rw [Declaration.pending_eq, List.append_assoc] at h₂
  exact h₂.defer

theorem action {a : Action} (h : Reads l ls ds waiting 0)
    (ha : Loader.action owner memberKey l a = .ok l') :
    Reads l' ls (ds ++ a.declarations memberKey) waiting 0 := by
  obtain ⟨⟨node, l₁⟩, hb, ha⟩ := bind_eq_ok_iff.mp ha
  obtain ⟨l₂, he, ha⟩ := bind_eq_ok_iff.mp ha
  obtain ⟨l₃, hrequest, hresponse⟩ := bind_eq_ok_iff.mp ha
  obtain ⟨h₁, hnode, hbears⟩ := h.child ⟨rfl, rfl⟩ hb
  obtain ⟨h₂, -⟩ := h₁.enter
    (d := partDeclaration .resourceAction (actionKey memberKey) a.name) he hnode hbears
  have h₃ := (h₂.payload ⟨rfl, rfl⟩ hrequest).payload ⟨rfl, rfl⟩ hresponse
  rw [List.append_assoc, List.append_assoc] at h₃
  exact h₃

/-- The standard facets of a new member are entered in the order of their roles. -/
theorem standardFacets {member : NodeId} {roles : List FacetRole}
    (h : Reads l ls ds waiting roles.length)
    (hfacet : ∀ j role, roles[j]? = some role →
      l.builder.model.facet? member role = some ⟨ds.length + j⟩ ∧
        Bears l.builder.model ⟨ds.length + j⟩ (.facet role) "")
    (hf : roles.foldlM (Loader.standardFacet member memberKey) l = .ok l') :
    Reads l' ls (ds ++ roles.map (facetDeclaration memberKey)) waiting 0 := by
  induction roles generalizing l ds with
  | nil =>
    obtain rfl := Except.ok.inj hf
    simpa using h
  | cons role roles ih =>
    rw [List.foldlM_cons] at hf
    obtain ⟨l₁, he, hf⟩ := bind_eq_ok_iff.mp hf
    obtain ⟨hfind, hbears⟩ := hfacet 0 role rfl
    rw [Loader.standardFacet, hfind] at he
    obtain ⟨h₁, hm⟩ := h.enter (d := facetDeclaration memberKey role) he rfl hbears
    have h₂ := ih h₁ (fun j role' hj => ?_) hf
    · simpa using h₂
    · rw [hm, List.length_append, List.length_singleton, Nat.add_assoc, Nat.add_comm 1]
      exact hfacet (j + 1) role' hj

end Reads

end SchemaEditor.Snapshot
