import SchemaEditor.Proofs.Snapshot.Load
import SchemaEditor.Proofs.Snapshot.Members

/-!
# What is read

A step of the first half of a load reads some declarations or refuses them. `Admits` is the contract
of such a step: it succeeds exactly if the stored data meet a condition of their own and bring no
key a second time. Contracts of steps in a row and of loops follow from those of the steps, so there
is one for each part of a member, for members, and for libraries.
-/

namespace SchemaEditor.Snapshot

open Outcome (bind_eq_ok_iff foldlM_keeps)

variable {α : Type} {l l' l₁ l₂ : Loader} {ls : List SchemaEditor.Library}
variable {ds more more' : List Declaration} {waiting : List Pending} {keys : Keys}
variable {node owner member : NodeId} {kind : NodeKind} {name memberKey : String}
variable {roles : List FacetRole} {target : LibraryId}

/-! ### Keys -/

/-- No key is declared twice. -/
def Distinct (ds : List Declaration) : Prop := (ds.map (·.key)).Nodup

theorem Distinct.of_append (h : Distinct (ds ++ more)) : Distinct ds := by
  rw [Distinct, List.map_append] at h
  exact h.of_append_left

/-- A table can list only declarations with different keys. -/
theorem Keys.Lists.distinct (h : keys.Lists ds) : Distinct ds := by
  rw [Distinct, List.nodup_iff_getElem?_ne_getElem?]
  intro i j hij hj hsame
  obtain ⟨key, hkey⟩ : ∃ key, (ds.map (·.key))[j]? = some key := ⟨_, List.getElem?_eq_getElem hj⟩
  have hi := (h key ⟨i⟩).mpr (hsame.trans hkey)
  have hj := (h key ⟨j⟩).mpr hkey
  have hid := Option.some.inj (hi.symm.trans hj)
  exact Nat.ne_of_lt hij (congrArg NodeId.index hid)

/-- A node is entered under a key that was not declared yet. -/
theorem exists_enter {d : Declaration} (h : l.keys.Lists ds) (hd : Distinct (ds ++ [d]))
    (node : NodeId) : ∃ l', l.enter d.key node = .ok l' := by
  unfold Loader.enter
  split
  · next htaken =>
    rw [Std.TreeMap.contains_eq_isSome_getElem?] at htaken
    obtain ⟨id, hid⟩ := Option.isSome_iff_exists.mp htaken
    have hmem := List.mem_of_getElem? ((h d.key id).mp hid)
    rw [Distinct, List.map_append, List.map_singleton, List.nodup_append] at hd
    exact absurd rfl (hd.2.2 d.key hmem d.key (List.mem_singleton_self _))
  · exact ⟨_, rfl⟩

theorem enter_builder {key : String} (h : l.enter key node = .ok l') :
    l'.builder = l.builder := by
  unfold Loader.enter at h
  split at h
  · cases h
  · obtain rfl := Except.ok.inj h
    rfl

theorem defer_keys (l : Loader) (node : NodeId) (t : Target) (text : Option String) :
    (l.defer node t text).keys = l.keys := by
  cases text <;> rfl

theorem defer_builder (l : Loader) (node : NodeId) (t : Target) (text : Option String) :
    (l.defer node t text).builder = l.builder := by
  cases text <;> rfl

/-! ### Contracts -/

/-- The contract of a step that reads the declarations `more`. Where `P` holds of the load and of
what was read before, the step succeeds if `C` holds and no key comes twice; whenever it succeeds,
`C` holds, and `Q` of the load and of what was read by then. -/
structure Admits (P Q : Loader → List Declaration → Prop) (step : Loader → Except Error Loader)
    (C : Prop) (more : List Declaration) : Prop where
  result : ∀ {l ds l'}, P l ds → step l = .ok l' → C ∧ Q l' (ds ++ more)
  success : ∀ {l ds}, P l ds → C → Distinct (ds ++ more) → ∃ l', step l = .ok l'

namespace Admits

variable {P Q R : Loader → List Declaration → Prop} {f g : Loader → Except Error Loader}
variable {C C' : Prop}

theorem mono_post (h : Admits P Q f C more) (hpost : ∀ {l ds}, Q l ds → R l ds) :
    Admits P R f C more where
  result hl hf := (h.result hl hf).imp_right hpost
  success := h.success

/-- One step after another. -/
theorem andThen (hf : Admits P Q f C more) (hg : Admits Q R g C' more') :
    Admits P R (fun l => f l >>= g) (C ∧ C') (more ++ more') where
  result := by
    intro l ds l' h hl
    obtain ⟨l₁, hl₁, hl'⟩ := bind_eq_ok_iff.mp hl
    obtain ⟨hC, h₁⟩ := hf.result h hl₁
    obtain ⟨hC', h'⟩ := hg.result h₁ hl'
    rw [List.append_assoc] at h'
    exact ⟨⟨hC, hC'⟩, h'⟩
  success := by
    rintro l ds h ⟨hC, hC'⟩ hd
    rw [← List.append_assoc] at hd
    obtain ⟨l₁, hl₁⟩ := hf.success h hC hd.of_append
    obtain ⟨l', hl'⟩ := hg.success (hf.result h hl₁).2 hC' hd
    exact ⟨l', bind_eq_ok_iff.mpr ⟨l₁, hl₁, hl'⟩⟩

/-- The rounds of a loop. -/
theorem each {step : Loader → α → Except Error Loader} {C : α → Prop}
    {decls : α → List Declaration} (h : ∀ a, Admits P P (step · a) (C a) (decls a))
    (as : List α) :
    Admits P P (as.foldlM step ·) (∀ a ∈ as, C a) (as.flatMap decls) := by
  induction as with
  | nil =>
    refine ⟨fun {l ds l'} hl he => ⟨by simp, ?_⟩, fun {l _} _ _ _ => ⟨l, rfl⟩⟩
    obtain rfl := Except.ok.inj he
    rwa [List.flatMap_nil, List.append_nil]
  | cons a as ih =>
    rw [List.forall_mem_cons, List.flatMap_cons]
    exact (h a).andThen ih

/-- The rounds of a loop that bring one key each. -/
theorem each_one {step : Loader → α → Except Error Loader} {C : α → Prop}
    {decl : α → Declaration} (h : ∀ a, Admits P P (step · a) (C a) [decl a]) (as : List α) :
    Admits P P (as.foldlM step ·) (∀ a ∈ as, C a) (as.map decl) := by
  rw [List.map_eq_flatMap]
  exact each h as

end Admits

/-! ### Parts of a member -/

/-- The declarations `ds` were read, and children may be put under one of their nodes. -/
structure Ready (ls : List SchemaEditor.Library) (waiting : List Pending) (owner : NodeId)
    (l : Loader) (ds : List Declaration) : Prop where
  reads : Reads l ls ds waiting 0
  sound : l.Sound
  owner : owner.index < ds.length

namespace Ready

theorem next (h : Ready ls waiting owner l ds) (hr : Reads l' ls (ds ++ more) waiting 0)
    (hs : l'.Sound) : Ready ls waiting owner l' (ds ++ more) := by
  refine ⟨hr, hs, ?_⟩
  rw [List.length_append]
  exact Nat.lt_add_right _ h.owner

theorem exists_child (h : Ready ls waiting owner l ds) (kind : NodeKind) (name : String) :
    ∃ node l', l.build (fun b => b.child owner kind name) = .ok (node, l') := by
  have hlt : owner.index < l.builder.model.nodes.size := by
    rw [h.reads.size]
    exact h.owner
  obtain ⟨p, hp⟩ := Model.exists_node? hlt
  obtain ⟨⟨node, m⟩, hadd⟩ : ∃ r, l.builder.model.addChild owner kind name = .ok r :=
    ⟨_, Model.addChild_of_attached hp (h.sound.whole.attached hp) kind name⟩
  have hchild : l.builder.child owner kind name = .ok (node, { l.builder with model := m }) := by
    rw [Builder.child, hadd]
    rfl
  exact ⟨node, _, build_eq_ok_iff.mpr ⟨_, hchild, rfl⟩⟩

end Ready

theorem admits_property (memberKey : String) (p : Property) :
    Admits (Ready ls waiting owner) (Ready ls waiting owner)
      (Loader.property owner memberKey · p) (p.kind.isProperty = true)
      [p.declaration memberKey] where
  result := by
    intro l ds l' h hp
    refine ⟨?_, h.next (h.reads.property hp) (h.sound.property hp)⟩
    unfold Loader.property at hp
    split at hp
    · cases hp
    · next hkind => simpa using hkind
  success := by
    intro l ds h hkind hd
    obtain ⟨node, l₁, hb⟩ := h.exists_child p.kind p.name
    have hkeys := (h.reads.child
      ⟨NodeKind.isFacet_of_isProperty hkind, NodeKind.isMember_of_isProperty hkind⟩ hb).1.keys
    obtain ⟨l₂, he⟩ := exists_enter
      (l := (l₁.refine node fun n => { n with
        mandatory := p.mandatory
        doc := { n.doc with description := p.description } }).defer node .type p.typeKey)
      (by rwa [defer_keys]) hd node
    refine ⟨l₂, ?_⟩
    unfold Loader.property
    rw [if_neg (by simp [hkind])]
    exact bind_eq_ok_iff.mpr ⟨(node, l₁), hb, he⟩

theorem admits_part (hk : kind.isFacet = false ∧ kind.isMember = false)
    (keyOf : String → String) (name : String) :
    Admits (Ready ls waiting owner) (Ready ls waiting owner)
      (Loader.part owner kind keyOf · name) True [partDeclaration kind keyOf name] where
  result h hp := ⟨trivial, h.next (h.reads.part hk hp) (h.sound.part hp)⟩
  success := by
    intro l ds h _ hd
    obtain ⟨node, l₁, hb⟩ := h.exists_child kind name
    obtain ⟨l₂, he⟩ := exists_enter (h.reads.child hk hb).1.keys hd node
    exact ⟨l₂, bind_eq_ok_iff.mpr ⟨(node, l₁), hb, he⟩⟩

theorem admits_payload (hk : kind.isFacet = false ∧ kind.isMember = false)
    (actionKey ending : String) (text : Option String) :
    Admits (Ready ls waiting owner) (Ready ls waiting owner)
      (Loader.payload owner actionKey kind ending · text) True
      [payloadDeclaration actionKey kind ending text] where
  result h hp := ⟨trivial, h.next (h.reads.payload hk hp) (h.sound.payload hp)⟩
  success := by
    intro l ds h _ hd
    obtain ⟨node, l₁, hb⟩ := h.exists_child kind ending
    obtain ⟨l₂, he⟩ := exists_enter (h.reads.child hk hb).1.keys hd node
    exact ⟨_, bind_eq_ok_iff.mpr ⟨(node, l₁), hb, bind_eq_ok_iff.mpr ⟨l₂, he, rfl⟩⟩⟩

theorem admits_action (memberKey : String) (a : Action) :
    Admits (Ready ls waiting owner) (Ready ls waiting owner)
      (Loader.action owner memberKey · a) True (a.declarations memberKey) where
  result h ha := ⟨trivial, h.next (h.reads.action ha) (h.sound.action ha)⟩
  success := by
    intro l ds h _ hd
    obtain ⟨node, l₁, hb⟩ := h.exists_child .resourceAction a.name
    let own := partDeclaration .resourceAction (actionKey memberKey) a.name
    -- The request and the response are put under the node of the action, which is the newest.
    have hd : Distinct (ds ++ [own] ++
        ([payloadDeclaration own.key .actionRequest "request" a.request] ++
          [payloadDeclaration own.key .actionResponse "response" a.response])) := by
      rw [List.append_assoc]
      exact hd
    obtain ⟨h₁, hnode, hbears⟩ := h.reads.child ⟨rfl, rfl⟩ hb
    obtain ⟨l₂, he⟩ := exists_enter h₁.keys hd.of_append node
    obtain ⟨h₂, -⟩ := h₁.enter he hnode hbears
    have hready : Ready ls waiting node l₂ (ds ++ [own]) := by
      refine ⟨h₂, (h.sound.child hb).enter he, ?_⟩
      rw [hnode, List.length_append]
      exact Nat.lt_succ_self _
    obtain ⟨l', hl'⟩ := ((admits_payload ⟨rfl, rfl⟩ own.key "request" a.request).andThen
      (admits_payload ⟨rfl, rfl⟩ own.key "response" a.response)).success hready ⟨trivial, trivial⟩ hd
    exact ⟨l', bind_eq_ok_iff.mpr ⟨(node, l₁), hb, bind_eq_ok_iff.mpr ⟨l₂, he, hl'⟩⟩⟩

/-! ### Facets -/

/-- A member was read whose facets are those of the given roles. -/
structure Opened (ls : List SchemaEditor.Library) (waiting : List Pending) (member : NodeId)
    (roles : List FacetRole) (l : Loader) (ds : List Declaration) : Prop
    extends Ready ls waiting member l ds where
  facet : ∀ role ∈ roles, ∃ facet : NodeId,
    l.builder.model.facet? member role = some facet ∧ facet.index < ds.length
  other : ∀ role ∉ roles, l.builder.model.facet? member role = none

/-- Properties are no facets. -/
theorem facet?_of_property {p : Property} (h : Loader.property owner memberKey l p = .ok l')
    (member : NodeId) (role : FacetRole) :
    l'.builder.model.facet? member role = l.builder.model.facet? member role := by
  unfold Loader.property at h
  split at h
  · cases h
  · next hkind =>
    obtain ⟨⟨node, l₁⟩, hb, he⟩ := bind_eq_ok_iff.mp h
    obtain ⟨b, hchild, rfl⟩ := build_eq_ok_iff.mp hb
    obtain ⟨hadd, -⟩ := Builder.model_of_child hchild
    obtain ⟨o, ho, -, heq⟩ := Model.addChild_eq_ok_iff.mp hadd
    have hm : b.model = (l.builder.model.appendChild owner o.library p.kind p.name).2 :=
      congrArg Prod.snd heq
    have hfacet : p.kind.isFacet = false :=
      NodeKind.isFacet_of_isProperty (by simpa using hkind)
    have place (n : Node) : n.SamePlace { n with
        mandatory := p.mandatory, doc := { n.doc with description := p.description } } :=
      ⟨rfl, rfl, rfl, rfl, rfl⟩
    rw [enter_builder he, defer_builder]
    refine (Model.facet?_modifyNode _ _ place _ _).trans ?_
    show b.model.facet? member role = _
    rw [hm]
    exact Model.facet?_appendChild ho hfacet _ _ _

theorem admits_section (memberKey : String) (entry : String × List Property) :
    Admits (Opened ls waiting member roles) (Opened ls waiting member roles)
      (Loader.section_ member memberKey · entry)
      ((∃ role ∈ roles, role.name = entry.1) ∧ ∀ p ∈ entry.2, p.kind.isProperty = true)
      (sectionDeclarations memberKey entry) where
  result := by
    intro l ds l' h hs
    have hreads := h.reads.section_ hs
    have hsound := h.sound.section_ hs
    unfold Loader.section_ at hs
    split at hs
    · cases hs
    · next role hname =>
      split at hs
      · cases hs
      · next facet hfacet =>
        have hrole : role ∈ roles := by
          by_contra hother
          cases hfacet.symm.trans (h.other role hother)
        have hlt : facet.index < ds.length := by
          obtain ⟨facet', hfacet', hlt⟩ := h.facet role hrole
          rwa [Option.some.inj (hfacet.symm.trans hfacet')]
        have hproperties := (Admits.each_one (admits_property memberKey) entry.2).result
          (⟨h.reads, h.sound, hlt⟩ : Ready ls waiting facet l ds) hs
        have hsame (role : FacetRole) :
            l'.builder.model.facet? member role = l.builder.model.facet? member role :=
          foldlM_keeps (I := fun l' => l'.builder.model.facet? member role =
            l.builder.model.facet? member role)
            (fun hkept hp => (facet?_of_property hp member role).trans hkept) rfl hs
        have hname : role.name = entry.1 := by simpa using List.find?_some hname
        refine ⟨⟨⟨role, hrole, hname⟩, hproperties.1⟩, h.next hreads hsound,
          fun role hrole => ?_, fun role hrole => ?_⟩
        · obtain ⟨facet, hfacet, hlt⟩ := h.facet role hrole
          refine ⟨facet, (hsame role).trans hfacet, ?_⟩
          rw [List.length_append]
          exact Nat.lt_add_right _ hlt
        · exact (hsame role).trans (h.other role hrole)
  success := by
    rintro l ds h ⟨⟨role, hrole, hname⟩, hproperties⟩ hd
    obtain ⟨facet, hfacet, hlt⟩ := h.facet role hrole
    obtain ⟨l', hl'⟩ := (Admits.each_one (admits_property memberKey) entry.2).success
      (⟨h.reads, h.sound, hlt⟩ : Ready ls waiting facet l ds) hproperties hd
    refine ⟨l', ?_⟩
    simp only [Loader.section_, ← hname, FacetRole.ofName?_name, hfacet]
    exact hl'

/-- The standard facets of a new member are entered if their keys are new. -/
theorem exists_standardFacets (h : Reads l ls ds waiting roles.length)
    (hfacet : ∀ j role, roles[j]? = some role →
      l.builder.model.facet? member role = some ⟨ds.length + j⟩ ∧
        Bears l.builder.model ⟨ds.length + j⟩ (.facet role) "")
    (hd : Distinct (ds ++ roles.map (facetDeclaration memberKey))) :
    ∃ l', roles.foldlM (Loader.standardFacet member memberKey) l = .ok l' := by
  induction roles generalizing l ds with
  | nil => exact ⟨l, rfl⟩
  | cons role roles ih =>
    obtain ⟨hfind, hbears⟩ := hfacet 0 role rfl
    rw [List.map_cons, List.append_cons] at hd
    obtain ⟨l₁, he⟩ := exists_enter h.keys hd.of_append ⟨ds.length⟩
    obtain ⟨h₁, hm⟩ := h.enter he rfl hbears
    obtain ⟨l', hl'⟩ := ih h₁ (fun j role' hj => by
      rw [hm, List.length_append, List.length_singleton, Nat.add_assoc, Nat.add_comm 1]
      exact hfacet (j + 1) role' hj) hd
    refine ⟨l', ?_⟩
    rw [List.foldlM_cons]
    refine bind_eq_ok_iff.mpr ⟨l₁, ?_, hl'⟩
    rw [Loader.standardFacet, hfind]
    exact he

theorem builder_of_standardFacets
    (h : roles.foldlM (Loader.standardFacet member memberKey) l = .ok l') :
    l'.builder = l.builder := by
  refine foldlM_keeps (I := fun l' => l'.builder = l.builder) (fun {_ role _} hkept hf => ?_) rfl h
  unfold Loader.standardFacet at hf
  split at hf
  · exact (enter_builder hf).trans hkept
  · obtain rfl := Except.ok.inj hf
    exact hkept

end SchemaEditor.Snapshot
