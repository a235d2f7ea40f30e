import SchemaEditor.Proofs.Snapshot.Admission
import SchemaEditor.Proofs.Snapshot.Faithful

/-!
# Which snapshots can be loaded

A snapshot is `WellFormed` if its members are, no key is declared twice, and every text of a
reference is a declared key or begins with the mark of built-in types. The first half of a load
admits just the members and keys that are so, and then every reference can be resolved; so the
snapshots that can be loaded are the well-formed ones.
-/

namespace SchemaEditor.Snapshot

open Outcome (bind_eq_ok_iff foldlM_keeps exists_foldlM)

variable {l l' l₁ l₂ : Loader} {ls : List SchemaEditor.Library} {ds bs : List Declaration}
variable {node : NodeId} {kind : NodeKind} {target : LibraryId} {p : Pending} {key : String}

/-! ### Members -/

/-- A stored member is of a kind of members, has facets only where its kind has standard facets,
and lists only properties as properties. -/
structure Member.WellFormed (m : Member) : Prop where
  kind : m.kind.isMember = true
  facets : ∀ entry ∈ m.facets.entries, ∃ role ∈ m.kind.standardFacets, role.name = entry.1
  sections : ∀ entry ∈ m.facets.entries, ∀ p ∈ entry.2, p.kind.isProperty = true
  properties : ∀ p ∈ m.properties, p.kind.isProperty = true

/-- What a member holds besides its standard facets, with its own references at the end. -/
theorem admits_contents (node : NodeId) (m : Member) :
    Admits (Opened ls (m.declaration.pending node) node m.kind.standardFacets)
      (fun l ds => Reads l ls ds [] 0 ∧ l.Sound)
      (fun l => m.facets.entries.foldlM (Loader.section_ node m.effectiveKey) l >>=
        fun l => m.properties.foldlM (Loader.property node m.effectiveKey) l >>=
        fun l => m.values.foldlM (Loader.part node .enumValue (partKey m.effectiveKey)) l >>=
        fun l => m.aliases.foldlM (Loader.part node .aliasName (aliasKey m.effectiveKey)) l >>=
        fun l => m.actions.foldlM (Loader.action node m.effectiveKey) l >>=
        fun l => pure (((l.defer node .type m.typeKey).defer node .base m.baseKey).defer node
          .contribution m.contributesTo))
      ((∀ entry ∈ m.facets.entries, (∃ role ∈ m.kind.standardFacets, role.name = entry.1) ∧
          ∀ p ∈ entry.2, p.kind.isProperty = true) ∧
        (∀ p ∈ m.properties, p.kind.isProperty = true) ∧ (∀ _ ∈ m.values, True) ∧
        (∀ _ ∈ m.aliases, True) ∧ (∀ _ ∈ m.actions, True) ∧ True)
      (m.facets.entries.flatMap (sectionDeclarations m.effectiveKey) ++
        (m.properties.map (·.declaration m.effectiveKey) ++
        (m.values.map (partDeclaration .enumValue (partKey m.effectiveKey)) ++
        (m.aliases.map (partDeclaration .aliasName (aliasKey m.effectiveKey)) ++
        (m.actions.flatMap (·.declarations m.effectiveKey) ++ []))))) := by
  have references : Admits (Ready ls (m.declaration.pending node) node)
      (fun l ds => Reads l ls ds [] 0 ∧ l.Sound)
      (fun l => pure (((l.defer node .type m.typeKey).defer node .base m.baseKey).defer node
        .contribution m.contributesTo)) True [] := by
    refine ⟨fun {l ds l'} h he => ⟨trivial, ?_⟩, fun {l ds} _ _ _ => ⟨_, rfl⟩⟩
    obtain rfl := Except.ok.inj he
    have hreads := h.reads
    rw [← List.append_nil (m.declaration.pending node), Declaration.pending_eq,
      List.append_assoc, List.append_assoc] at hreads
    rw [List.append_nil]
    exact ⟨hreads.defer.defer.defer, ((h.sound.defer _ _ _).defer _ _ _).defer _ _ _⟩
  have sections := (Admits.each (P := Opened ls (m.declaration.pending node) node
    m.kind.standardFacets) (admits_section m.effectiveKey) m.facets.entries).mono_post
    Opened.toReady
  exact sections.andThen <| (Admits.each_one (admits_property _) m.properties).andThen <|
    (Admits.each_one (admits_part ⟨rfl, rfl⟩ _) m.values).andThen <|
    (Admits.each_one (admits_part ⟨rfl, rfl⟩ _) m.aliases).andThen <|
    (Admits.each (admits_action _) m.actions).andThen references

/-- A library of the load is being read. -/
def Within (target : LibraryId) (l : Loader) (ds : List Declaration) : Prop :=
  ∃ ls, Reads l ls ds [] 0 ∧ l.Sound ∧ target.index < ls.length

/-- A member that was entered with its standard facets is ready for what it holds. -/
theorem Reads.opened {m : Member} {l₃ : Loader} (h : Reads l ls ds [] 0) (hs : l.Sound)
    (hb : l.build (fun b => b.member target m.kind m.name) = .ok (node, l₁))
    (he : (l₁.refine node fun n => { n with
      doc := { n.doc with description := m.description } }).enter m.effectiveKey node = .ok l₂)
    (hf : m.kind.standardFacets.foldlM (Loader.standardFacet node m.effectiveKey) l₂ = .ok l₃) :
    Opened (listed ls target ⟨ds.length⟩) (m.declaration.pending node) node
      m.kind.standardFacets l₃ (ds ++ [m.declaration] ++
        m.kind.standardFacets.map (facetDeclaration m.effectiveKey)) := by
  obtain ⟨h₂, hfacet, hother⟩ := h.enterMember hb he
  have hbuilder := builder_of_standardFacets hf
  have hsound : l₂.Sound := by
    refine Loader.Sound.enter (Loader.Sound.refine ?_ ?_ ?_) he
    · exact Loader.Sound.build hb fun hs' => Builder.Sound.member hs hs'
    · exact fun _ => ⟨rfl, rfl, rfl, rfl, rfl⟩
    · exact fun _ => ⟨rfl, rfl⟩
  refine ⟨⟨h₂.standardFacets hfacet hf, foldlM_keeps (fun h hf => h.standardFacet hf) hsound hf,
    ?_⟩, fun role hrole => ?_, fun role hrole => ?_⟩
  · obtain ⟨-, hnode, -⟩ := h.newMember hb
    rw [hnode, List.length_append, List.length_append]
    exact Nat.lt_add_right _ (Nat.lt_succ_self _)
  · obtain ⟨j, hj⟩ := List.mem_iff_getElem?.mp hrole
    refine ⟨_, hbuilder ▸ (hfacet j role hj).1, ?_⟩
    have hlt := (List.getElem?_eq_some_iff.mp hj).1
    simp only [List.length_append, List.length_map]
    omega
  · rw [hbuilder]
    exact hother role hrole

theorem exists_member (h : Reads l ls ds [] 0) (ht : target.index < ls.length)
    (hkind : kind.isMember = true) (name : String) :
    ∃ node l', l.build (fun b => b.member target kind name) = .ok (node, l') := by
  have hlibrary : ∃ x, l.builder.model.library? target = some x := by
    rw [Model.exists_library?, ← Array.length_toList, h.libraries]
    exact ht
  obtain ⟨⟨node, m⟩, hadd⟩ : ∃ r, l.builder.model.addMember target kind name = .ok r :=
    ⟨_, Model.addMember_eq_ok_iff.mpr ⟨hkind, hlibrary, rfl⟩⟩
  have hmember : l.builder.member target kind name = .ok (node, { l.builder with model := m }) := by
    rw [Builder.member, hadd]
    rfl
  exact ⟨node, _, build_eq_ok_iff.mpr ⟨_, hmember, rfl⟩⟩

theorem admits_member (m : Member) :
    Admits (Within target) (Within target) (Loader.member target · m) m.WellFormed
      m.declarations where
  result := by
    rintro l ds l' ⟨ls, h, hs, ht⟩ hm
    have hwithin : Within target l' (ds ++ m.declarations) :=
      ⟨_, h.member hm, hs.member hm, by simpa [listed] using ht⟩
    obtain ⟨⟨node, l₁⟩, hb, hm⟩ := bind_eq_ok_iff.mp hm
    obtain ⟨l₂, he, hm⟩ := bind_eq_ok_iff.mp hm
    obtain ⟨l₃, hf, hm⟩ := bind_eq_ok_iff.mp hm
    obtain ⟨b, hadd, -⟩ := build_eq_ok_iff.mp hb
    obtain ⟨hkind, -, -⟩ := Model.addMember_eq_ok_iff.mp (Builder.model_of_member hadd).1
    obtain ⟨⟨hfacets, hproperties, -⟩, -⟩ :=
      (admits_contents node m).result (h.opened hs hb he hf) hm
    exact ⟨⟨hkind, fun e he => (hfacets e he).1, fun e he => (hfacets e he).2, hproperties⟩,
      hwithin⟩
  success := by
    rintro l ds ⟨ls, h, hs, ht⟩ hm hd
    rw [Member.declarations, Member.parts, List.append_cons] at hd
    simp only [List.append_assoc] at hd
    rw [← List.append_assoc, ← List.append_assoc] at hd
    obtain ⟨node, l₁, hb⟩ := exists_member h ht hm.kind m.name
    obtain ⟨h₁, -⟩ := h.newMember hb
    obtain ⟨l₂, he⟩ := exists_enter (l := l₁.refine node fun n => { n with
      doc := { n.doc with description := m.description } }) h₁.keys hd.of_append.of_append node
    obtain ⟨h₂, hfacet, -⟩ := h.enterMember hb he
    obtain ⟨l₃, hf⟩ := exists_standardFacets h₂ hfacet hd.of_append
    obtain ⟨l', hl'⟩ := (admits_contents node m).success (h.opened hs hb he hf)
      ⟨fun e he => ⟨hm.facets e he, hm.sections e he⟩, hm.properties, by simp⟩
      (by rwa [List.append_nil])
    exact ⟨l', bind_eq_ok_iff.mpr ⟨(node, l₁), hb, bind_eq_ok_iff.mpr ⟨l₂, he,
      bind_eq_ok_iff.mpr ⟨l₃, hf, hl'⟩⟩⟩⟩

/-! ### Libraries -/

/-- The declarations `ds` were read, and all members so far are complete. -/
def Between (l : Loader) (ds : List Declaration) : Prop := ∃ ls, Reads l ls ds [] 0 ∧ l.Sound

theorem admits_library (lib : Library) :
    Admits Between Between (Loader.library · lib) (∀ m ∈ lib.members, m.WellFormed)
      lib.declarations := by
  -- The library that is added is the last one, and the members are put there.
  have last {l ls ds} (h : Reads l ls ds [] 0) (hs : l.Sound) :
      ∃ l', Within ⟨l.builder.model.libraries.size⟩ l' ds ∧ Loader.library l lib =
        lib.members.foldlM (Loader.member ⟨l.builder.model.libraries.size⟩) l' := by
    have hsound : (l.builder.library ((lib.upTo []).loaded l.keys)).2.Sound :=
      Builder.Sound.library hs rfl
    refine ⟨_, ⟨_, h.newLibrary ((lib.upTo []).loaded l.keys), hsound, ?_⟩, rfl⟩
    simp [← h.libraries]
  constructor
  case result =>
    rintro l ds l' ⟨ls, h, hs⟩ hl
    obtain ⟨l₁, hl₁, heq⟩ := last h hs
    rw [heq] at hl
    obtain ⟨hmembers, ls', h', hs', -⟩ := (Admits.each admits_member lib.members).result hl₁ hl
    exact ⟨hmembers, ls', h', hs'⟩
  case success =>
    rintro l ds ⟨ls, h, hs⟩ hmembers hd
    obtain ⟨l₁, hl₁, heq⟩ := last h hs
    rw [heq]
    exact (Admits.each admits_member lib.members).success hl₁ hmembers hd

theorem admits_libraries (s : Snapshot) :
    Admits Between Between (s.libraries.foldlM Loader.library ·)
      (∀ lib ∈ s.libraries, ∀ m ∈ lib.members, m.WellFormed) s.declarations :=
  Admits.each admits_library s.libraries

/-! ### References -/

theorem exists_builtinName?_iff :
    (∃ name, builtinName? key = some name) ↔ builtinMark <+: key.toList := by
  rw [← List.isPrefixOf_iff_prefix, builtinName?]
  split <;> simp_all

/-- A text is the key of a declaration, or it begins with the mark of built-in types. -/
def Understood (ds : List Declaration) (key : String) : Prop :=
  (∃ d ∈ ds, d.key = key) ∨ builtinMark <+: key.toList

namespace Stocked

theorem exists_resolve (h : Stocked l ls ds bs) (hkey : Understood ds key) :
    ∃ node l', l.resolve key = .ok (node, l') := by
  unfold Loader.resolve
  split
  · exact ⟨_, _, rfl⟩
  · next hnone =>
    obtain ⟨d, hd, rfl⟩ | hmark := hkey
    · obtain ⟨i, hi⟩ := List.mem_iff_getElem?.mp (List.mem_append_left bs hd)
      cases hnone.symm.trans (h.keys.getElem?_key hi)
    · obtain ⟨name, hname⟩ := exists_builtinName?_iff.mpr hmark
      rw [hname]
      exact ⟨_, _, rfl⟩

/-- A reference of a declared node is set if its text is understood. -/
theorem exists_settle (h : Stocked l ls ds bs) (hnode : p.node.index < ds.length)
    (hkey : Understood ds p.key) :
    ∃ l', l.settle p = .ok l' ∧ ∃ bs', Stocked l' ls ds bs' := by
  obtain ⟨node, l₁, hr⟩ := h.exists_resolve hkey
  obtain ⟨more, h₁, -, hk, -⟩ := h.resolve hr
  have present {x : NodeId} (hx : x.index < (ds ++ (bs ++ more)).length) :
      ∃ n, l₁.builder.model.node? x = some n := by
    apply Model.exists_node?
    rwa [h₁.size]
  obtain ⟨provider, hprovider⟩ := present (h₁.keys.lt_length hk)
  obtain ⟨user, huser⟩ : ∃ n, l₁.builder.model.node? p.node = some n := by
    refine present ?_
    rw [List.length_append]
    exact Nat.lt_add_right _ hnode
  obtain ⟨l', hs⟩ : ∃ l', l.settle p = .ok l' := by
    unfold Loader.settle
    rw [hr]
    cases p.target <;>
      simp [Builder.assign, Builder.extend, Builder.contribute, Model.setTypeRef, Model.setBase,
        Model.setContributesTo, Model.node_of_node? hprovider, Model.update_of_node? huser, pure,
        Except.pure]
  refine ⟨l', hs, bs ++ more, ?_⟩
  obtain ⟨node', l₂, hr', rfl⟩ := settle_cases hs
  obtain ⟨-, rfl⟩ := Prod.mk.inj (Except.ok.inj (hr.symm.trans hr'))
  exact h₁.refine p.node (fun n => samePlace_write _ _ n) fun n => name_write _ _ n

end Stocked

/-- The text of every reference that was set is understood. -/
theorem Settled.understood {done : List Pending} (h : Settled l ls ds bs done) (hp : p ∈ done) :
    Understood ds p.key := by
  obtain ⟨id, hk⟩ := h.resolved p hp
  obtain ⟨d, hd, hkey⟩ := h.stocked.keys.exists_declaration hk
  obtain hd | hd := List.mem_append.mp (List.mem_of_getElem? hd)
  · exact .inl ⟨d, hd, hkey⟩
  · have hname := (h.stocked.builtin d hd).2
    rw [hkey] at hname
    exact .inr (exists_builtinName?_iff.mp ⟨d.name, hname⟩)

/-! ### Well-formed snapshots -/

/-- A snapshot has well-formed members, different keys for everything it declares, and references
only to declared keys and to built-in types. -/
structure WellFormed (s : Snapshot) : Prop where
  members : ∀ lib ∈ s.libraries, ∀ m ∈ lib.members, m.WellFormed
  keys : Distinct s.declarations
  references : ∀ d ∈ s.declarations, ∀ (t : Target) (key : String), d.text t = some key →
    Understood s.declarations key

/-- A snapshot can be loaded exactly if it is well-formed. -/
theorem exists_load_iff_wellFormed (s : Snapshot) :
    (∃ loaded, s.load = .ok loaded) ↔ s.WellFormed := by
  have start : Between Loader.start [] := ⟨[], .start, Builder.Sound.empty⟩
  constructor
  · rintro ⟨loaded, h⟩
    obtain ⟨l₁, hl₁, -⟩ := bind_eq_ok_iff.mp h
    obtain ⟨hmembers, ls, hreads, -⟩ := (admits_libraries s).result start hl₁
    refine ⟨hmembers, hreads.keys.distinct, fun d hd t key ht => ?_⟩
    obtain ⟨l, bs, done, -, hsettled, hdone⟩ := exists_settled h
    obtain ⟨i, hi⟩ := List.mem_iff_getElem?.mp hd
    exact hsettled.understood (p := ⟨⟨i⟩, t, key⟩) ((hdone _).mpr ⟨d, hi, ht⟩)
  · rintro ⟨hmembers, hkeys, hreferences⟩
    obtain ⟨l₁, hl₁⟩ := (admits_libraries s).success start hmembers hkeys
    obtain ⟨-, ls, hreads, -⟩ := (admits_libraries s).result start hl₁
    obtain ⟨l₂, hl₂⟩ : ∃ l₂, l₁.pending.foldlM Loader.settle l₁ = .ok l₂ := by
      refine exists_foldlM (I := fun l => ∃ bs, Stocked l ls s.declarations bs) ?_
        ⟨[], hreads.stocked⟩
      rintro l p ⟨bs, h⟩ hp
      obtain ⟨d, hd, ht⟩ := (hreads.pending p).mp (.inl hp)
      exact h.exists_settle (List.getElem?_eq_some_iff.mp hd).1
        (hreferences d (List.mem_of_getElem? hd) p.target p.key ht)
    exact ⟨_, bind_eq_ok_iff.mpr ⟨l₁, hl₁, bind_eq_ok_iff.mpr ⟨l₂, hl₂, rfl⟩⟩⟩

end SchemaEditor.Snapshot
