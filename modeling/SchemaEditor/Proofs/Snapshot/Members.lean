import SchemaEditor.Proofs.Snapshot.Reading

/-!
# Reading members and libraries

A member is added with its standard facets, then comes everything else that it holds. Its own
references are noted last of all, so they are waiting in the meantime. A library lists the members
that have been read for it, in order; that list is what the keys of the members stand for.
-/

namespace SchemaEditor.Snapshot

open Outcome (bind_eq_ok_iff foldlM_collects)

variable {l l' : Loader} {ls : List SchemaEditor.Library} {ds : List Declaration}
variable {waiting : List Pending} {node : NodeId} {kind : NodeKind} {name : String}
variable {target : LibraryId} {lib : Library}

/-- The libraries with a node at the end of the members of one of them. -/
def listed (ls : List SchemaEditor.Library) (library : LibraryId) (node : NodeId) :
    List SchemaEditor.Library :=
  ls.modify library.index fun l => { l with members := l.members ++ [node] }

theorem listed_append_singleton (ls : List SchemaEditor.Library) (l : SchemaEditor.Library)
    (node : NodeId) :
    listed (ls ++ [l]) ⟨ls.length⟩ node = ls ++ [{ l with members := l.members ++ [node] }] :=
  List.modifyTailIdx_add (List.modifyHead fun k : SchemaEditor.Library =>
    { k with members := k.members ++ [node] }) 0 ls [l]

/-- A library as far as its members were read. -/
def Library.upTo (lib : Library) (ms : List Member) : Library := { lib with members := ms }

theorem Library.loaded_congr {keys keys' : Keys}
    (h : ∀ m ∈ lib.members, keys'[m.effectiveKey]? = keys[m.effectiveKey]?) :
    lib.loaded keys' = lib.loaded keys := by
  rw [Library.loaded, Library.loaded, List.filterMap_congr h]

namespace Reads

/-- A new member and its facets are there, but nothing is entered yet. -/
theorem newMember (h : Reads l ls ds waiting 0)
    (hb : l.build (fun b => b.member target kind name) = .ok (node, l')) :
    Reads l' (listed ls target ⟨ds.length⟩) ds waiting (kind.standardFacets.length + 1) ∧
      node = ⟨ds.length⟩ ∧ Bears l'.builder.model node kind name ∧
      (∀ j role, kind.standardFacets[j]? = some role →
        l'.builder.model.facet? node role = some ⟨ds.length + 1 + j⟩ ∧
          Bears l'.builder.model ⟨ds.length + 1 + j⟩ (.facet role) "") ∧
      ∀ role ∉ kind.standardFacets, l'.builder.model.facet? node role = none := by
  obtain ⟨b, hmember, rfl⟩ := build_eq_ok_iff.mp hb
  obtain ⟨hadd, hbuiltins⟩ := Builder.model_of_member hmember
  obtain ⟨hkind, -, he⟩ := Model.addMember_eq_ok_iff.mp hadd
  have hm : b.model = (l.builder.model.appendMember target kind name).2 := congrArg Prod.snd he
  obtain rfl : node = l.builder.model.nextId := congrArg Prod.fst he
  have hsize : l.builder.model.nodes.size = ds.length := h.size
  have hnew : l.builder.model.nextId = ⟨ds.length⟩ := congrArg NodeId.mk hsize
  have hf := Model.furnished_appendMember l.builder.model target kind name
  rw [← hm] at hf
  have hlisted : (l.builder.model.withMember target kind name).nodes.size = ds.length + 1 := by
    rw [← hsize]
    exact Model.pushed_size ..
  refine ⟨?_, hnew, ⟨_, hf.top, rfl, rfl⟩, fun j role hj => ⟨?_, ?_⟩,
    fun role hrole => hf.facet?_eq_none rfl hrole⟩
  · constructor
    case builtins => exact hbuiltins.trans h.builtins
    case libraries =>
      show b.model.libraries.toList = _
      rw [hf.libraries, ← h.libraries, ← hnew]
      exact Array.toList_modify
    case size =>
      show b.model.nodes.size = _
      rw [hf.size, hlisted]
      omega
    case keys => exact h.keys
    case bears =>
      intro i d hd
      obtain ⟨n, hn, hk, hname⟩ := h.bears i d hd
      refine ⟨n, hf.other (Model.ne_nextId hn) ?_, hk, hname⟩
      rw [Model.node?_withMember, if_neg (Model.ne_nextId hn), hn]
    case blank =>
      intro id n hn t
      obtain rfl | ⟨_, role, -, -, rfl⟩ | hold := Model.appendMember_cases (hm ▸ hn)
      · obtain rfl := Option.some.inj (hf.top.symm.trans hn)
        cases t <;> rfl
      · exact reference_fresh ..
      · exact h.blank id n hold t
    case layered =>
      show b.model.Layered
      rw [hm]
      exact h.layered.appendMember target hkind name
    case nested =>
      show b.model.Nested
      rw [hm]
      exact h.nested.appendMember target hkind name
    case pending => exact h.pending
  · rw [hf.facet?_eq rfl (Model.nodup_standardFacets kind) hj, hlisted]
  · exact ⟨_, hlisted ▸ hf.facet hj, rfl, rfl⟩

/-- A new member is entered, and its facets are the next to be entered. -/
theorem enterMember {m : Member} {l₁ l₂ : Loader} (h : Reads l ls ds [] 0)
    (hb : l.build (fun b => b.member target m.kind m.name) = .ok (node, l₁))
    (he : (l₁.refine node fun n => { n with
      doc := { n.doc with description := m.description } }).enter m.effectiveKey node = .ok l₂) :
    Reads l₂ (listed ls target ⟨ds.length⟩) (ds ++ [m.declaration])
        (m.declaration.pending node) m.kind.standardFacets.length ∧
      (∀ j role, m.kind.standardFacets[j]? = some role →
        l₂.builder.model.facet? node role = some ⟨(ds ++ [m.declaration]).length + j⟩ ∧
          Bears l₂.builder.model ⟨(ds ++ [m.declaration]).length + j⟩ (.facet role) "") ∧
      ∀ role ∉ m.kind.standardFacets, l₂.builder.model.facet? node role = none := by
  have place (n : Node) :
      n.SamePlace { n with doc := { n.doc with description := m.description } } :=
    ⟨rfl, rfl, rfl, rfl, rfl⟩
  obtain ⟨h₁, hnode, hbears, hroles, hother⟩ := h.newMember hb
  obtain ⟨h₁', hkept⟩ := h₁.refine node place (fun _ => rfl) fun _ t => by cases t <;> rfl
  obtain ⟨h₂, hmodel⟩ := h₁'.enter (d := m.declaration) he hnode (hkept hbears)
  have same (role : FacetRole) :
      l₂.builder.model.facet? node role = l₁.builder.model.facet? node role := by
    rw [hmodel]
    exact Model.facet?_modifyNode _ _ place _ _
  rw [List.append_nil] at h₂
  refine ⟨h₂, fun j role hj => ?_, fun role hrole => (same role).trans (hother role hrole)⟩
  rw [same, hmodel, List.length_append, List.length_singleton]
  exact ⟨(hroles j role hj).1, hkept (hroles j role hj).2⟩

theorem member {m : Member} (h : Reads l ls ds [] 0) (hm : Loader.member target l m = .ok l') :
    Reads l' (listed ls target ⟨ds.length⟩) (ds ++ m.declarations) [] 0 := by
  obtain ⟨⟨node, l₁⟩, hb, hm⟩ := bind_eq_ok_iff.mp hm
  obtain ⟨l₂, he, hm⟩ := bind_eq_ok_iff.mp hm
  obtain ⟨l₃, hstandard, hm⟩ := bind_eq_ok_iff.mp hm
  obtain ⟨l₄, hfacets, hm⟩ := bind_eq_ok_iff.mp hm
  obtain ⟨l₅, hproperties, hm⟩ := bind_eq_ok_iff.mp hm
  obtain ⟨l₆, hvalues, hm⟩ := bind_eq_ok_iff.mp hm
  obtain ⟨l₇, haliases, hm⟩ := bind_eq_ok_iff.mp hm
  obtain ⟨l₈, hactions, hm⟩ := bind_eq_ok_iff.mp hm
  obtain rfl := Except.ok.inj hm
  obtain ⟨h₂, hroles, -⟩ := h.enterMember hb he
  have h₃ := h₂.standardFacets hroles hstandard
  have h₄ := h₃.each (fun h hs => h.section_ hs) hfacets
  have h₅ := h₄.each_one (fun h hp => h.property hp) hproperties
  have h₆ := h₅.each_one (fun h hp => h.part ⟨rfl, rfl⟩ hp) hvalues
  have h₇ := h₆.each_one (fun h hp => h.part ⟨rfl, rfl⟩ hp) haliases
  have h₈ := h₇.each (fun h ha => h.action ha) hactions
  have hds : ds ++ m.declarations = ds ++ [m.declaration] ++
      m.kind.standardFacets.map (facetDeclaration m.effectiveKey) ++
      m.facets.entries.flatMap (sectionDeclarations m.effectiveKey) ++
      m.properties.map (·.declaration m.effectiveKey) ++
      m.values.map (partDeclaration .enumValue (partKey m.effectiveKey)) ++
      m.aliases.map (partDeclaration .aliasName (aliasKey m.effectiveKey)) ++
      m.actions.flatMap (·.declarations m.effectiveKey) := by
    simp [Member.declarations, Member.parts]
  rw [← hds, ← List.append_nil (m.declaration.pending node), Declaration.pending_eq,
    List.append_assoc, List.append_assoc] at h₈
  exact h₈.defer.defer.defer

/-! ### Libraries -/

theorem newLibrary (h : Reads l ls ds waiting 0) (x : SchemaEditor.Library) :
    Reads { l with builder := (l.builder.library x).2 } (ls ++ [x]) ds waiting 0 where
  builtins := h.builtins
  libraries := by
    rw [← h.libraries]
    exact Array.toList_push
  size := h.size
  keys := h.keys
  bears := h.bears
  blank := h.blank
  layered := h.layered
  nested := h.nested.of_nodes rfl
  pending := h.pending

variable {done : List Library}

/-- The last of the libraries was read as far as the members `ms`; one more is read for it. -/
theorem listedMember {ms : List Member} {m : Member}
    (h : Reads l ((done ++ [lib.upTo ms]).map (·.loaded l.keys))
      (ds ++ ms.flatMap Member.declarations) [] 0)
    (hdone : ∀ lib ∈ done, ∀ m ∈ lib.members, m.declaration ∈ ds)
    (hm : Loader.member ⟨done.length⟩ l m = .ok l') :
    Reads l' ((done ++ [lib.upTo (ms ++ [m])]).map (·.loaded l'.keys))
      (ds ++ (ms ++ [m]).flatMap Member.declarations) [] 0 := by
  have h' := h.member hm
  have new : l'.keys[m.effectiveKey]? = some ⟨(ds ++ ms.flatMap Member.declarations).length⟩ := by
    refine h'.keys.getElem?_key (d := m.declaration) ?_
    rw [List.getElem?_append_right (Nat.le_refl _), Nat.sub_self]
    rfl
  -- Members that were read are declared, so their keys mean the same as before.
  have kept {lib : Library}
      (hlib : ∀ m ∈ lib.members, m.declaration ∈ ds ++ ms.flatMap Member.declarations) :
      lib.loaded l'.keys = lib.loaded l.keys :=
    Library.loaded_congr fun m hm => h.getElem?_key_of_append h' (hlib m hm)
  have hfront : done.map (·.loaded l'.keys) = done.map (·.loaded l.keys) := by
    refine List.map_congr_left fun lib hlib => kept fun m hm => ?_
    exact List.mem_append_left _ (hdone lib hlib m hm)
  have hlast : (lib.upTo ms).loaded l'.keys = (lib.upTo ms).loaded l.keys := by
    refine kept fun m hm => List.mem_append_right _ ?_
    exact List.mem_flatMap.mpr ⟨m, hm, List.mem_cons_self⟩
  have hlisted : listed ((done ++ [lib.upTo ms]).map (·.loaded l.keys))
      ⟨done.length⟩ ⟨(ds ++ ms.flatMap Member.declarations).length⟩ =
        (done ++ [lib.upTo (ms ++ [m])]).map (·.loaded l'.keys) := by
    rw [List.map_append, List.map_append, ← hfront, List.map_singleton, ← hlast,
      ← List.length_map (·.loaded l'.keys), listed_append_singleton]
    simp [Library.upTo, Library.loaded, new]
  rw [hlisted, List.append_assoc] at h'
  simpa using h'

/-- The libraries that were read list the nodes of their members, as their keys say. -/
theorem library (h : Reads l (done.map (·.loaded l.keys)) ds [] 0)
    (hdone : ∀ lib ∈ done, ∀ m ∈ lib.members, m.declaration ∈ ds)
    (hl : Loader.library l lib = .ok l') :
    Reads l' ((done ++ [lib]).map (·.loaded l'.keys)) (ds ++ lib.declarations) [] 0 := by
  have hsize : l.builder.model.libraries.size = done.length := by
    simpa using congrArg List.length h.libraries
  refine foldlM_collects
    (I := fun l ms => Reads l ((done ++ [lib.upTo ms]).map (·.loaded l.keys))
      (ds ++ ms.flatMap Member.declarations) [] 0)
    (fun {b ms m b'} h hm => ?_) ?_ hl
  · rw [hsize] at hm
    exact h.listedMember hdone hm
  · have h₀ := h.newLibrary ((lib.upTo []).loaded l.keys)
    rw [List.map_append, List.flatMap_nil, List.append_nil]
    exact h₀

theorem snapshot {s : Snapshot} (h : s.libraries.foldlM Loader.library .start = .ok l) :
    Reads l (s.libraries.map (·.loaded l.keys)) s.declarations [] 0 := by
  refine foldlM_collects
    (I := fun l libs =>
      Reads l (libs.map (·.loaded l.keys)) (libs.flatMap Library.declarations) [] 0)
    (fun {b libs lib b'} h hl => ?_) .start h
  have hdone : ∀ lib ∈ libs, ∀ m ∈ lib.members,
      m.declaration ∈ libs.flatMap Library.declarations := by
    intro lib hlib m hm
    refine List.mem_flatMap.mpr ⟨lib, hlib, List.mem_flatMap.mpr ⟨m, hm, ?_⟩⟩
    exact List.mem_cons_self
  simpa using h.library hdone hl

end Reads

end SchemaEditor.Snapshot
