import SchemaEditor.Proofs.Model.Operation

/-!
# Libraries and their members

`Shelved` states how the lists of the libraries agree with the nodes: each list has exactly the
attached nodes of its library that have no owner, each once. Every operation keeps it, provided
that a library which is added lists nothing yet.
-/

namespace SchemaEditor.Model

variable {m m' : Model} {id x : NodeId} {n : Node} {lib k : LibraryId} {l l' : Library}

/-- Libraries list the attached nodes without owner that belong to them. -/
structure Shelved (m : Model) : Prop where
  library_exists : ∀ {id n}, m.node? id = some n → ∃ l, m.library? n.library = some l
  listed : ∀ {id n l}, m.node? id = some n → n.attached = true → n.owner = none →
    m.library? n.library = some l → id ∈ l.members
  member : ∀ {lib l id}, m.library? lib = some l → id ∈ l.members →
    ∃ n, m.node? id = some n ∧ n.owner = none ∧ n.library = lib ∧ n.attached = true
  nodup : ∀ {lib l}, m.library? lib = some l → l.members.Nodup

theorem library?_addLibrary (m : Model) (l : Library) (lib : LibraryId) :
    (m.addLibrary l).2.library? lib =
      if lib = ⟨m.libraries.size⟩ then some l else m.library? lib := by
  obtain ⟨i⟩ := lib
  simp only [library?, addLibrary, Array.getElem?_push, LibraryId.mk.injEq]

theorem ne_of_library? (h : m.library? lib = some l) : lib ≠ ⟨m.libraries.size⟩ := by
  rintro rfl
  simp [library?] at h

theorem library?_withMember (m : Model) (library : LibraryId) (kind : NodeKind) (name : String)
    (lib : LibraryId) :
    (m.withMember library kind name).library? lib =
      if lib = library then
        (m.library? lib).map fun l => { l with members := l.members ++ [m.nextId] }
      else m.library? lib := by
  rw [withMember, library?_modifyLibrary]
  rfl

/-- Every library keeps its members, and the one that the new member is added to lists it. -/
theorem exists_library?_withMember (hk : m.library? k = some l) (lib : LibraryId)
    (kind : NodeKind) (name : String) :
    ∃ l', (m.withMember lib kind name).library? k = some l' ∧
      (∀ x ∈ l.members, x ∈ l'.members) ∧ (k = lib → m.nextId ∈ l'.members) := by
  rw [library?_withMember]
  by_cases hkl : k = lib
  · exact ⟨_, by rw [if_pos hkl, hk, Option.map_some], fun x hx => List.mem_append_left _ hx,
      fun _ => List.mem_append_right _ (List.mem_singleton.mpr rfl)⟩
  · exact ⟨l, by rw [if_neg hkl, hk], fun x hx => hx, fun he => absurd he hkl⟩

theorem withMember_cases {kind : NodeKind} {name : String}
    (hk : (m.withMember lib kind name).library? k = some l') :
    ∃ l, m.library? k = some l ∧
      (l'.members = l.members ∨ (k = lib ∧ l'.members = l.members ++ [m.nextId])) := by
  rw [library?_withMember] at hk
  split at hk
  · obtain ⟨l, hl, rfl⟩ := Option.map_eq_some_iff.mp hk
    exact ⟨l, hl, .inr ⟨‹_›, rfl⟩⟩
  · exact ⟨l', hk, .inl rfl⟩

theorem library?_without (m : Model) (id : NodeId) (n : Node) (lib : LibraryId) :
    (m.without id n).library? lib =
      if n.owner = none ∧ lib = n.library then
        (m.library? lib).map fun l => { l with members := l.members.filter (· ≠ id) }
      else m.library? lib := by
  have hmark : (m.without id n).library? lib = (m.unlink id n).library? lib := by
    rw [library?, library?, without, markDetached_libraries]
  rw [hmark, unlink]
  cases n.owner with
  | some o => simp
  | none => simp [library?_modifyLibrary]

namespace Shelved

theorem empty : Shelved .empty := by
  constructor <;> intro a <;> simp [node?, library?, Model.empty]

theorem of_samePlace (h : Shelved m) {g : NodeId → Node → Node}
    (hg : ∀ x (n : Node), n.SamePlace (g x n)) (hm : ∀ x, m'.node? x = (m.node? x).map (g x))
    (hl : m'.libraries = m.libraries) : Shelved m' := by
  have back {x n'} (hn' : m'.node? x = some n') : ∃ n, m.node? x = some n ∧ n.SamePlace n' := by
    rw [hm x, Option.map_eq_some_iff] at hn'
    obtain ⟨n, hn, rfl⟩ := hn'
    exact ⟨n, hn, hg x n⟩
  have libraries (lib) : m'.library? lib = m.library? lib := by rw [library?, library?, hl]
  constructor
  case library_exists =>
    intro x n' hn'
    obtain ⟨n, hn, s⟩ := back hn'
    rw [libraries, s.library]
    exact h.library_exists hn
  case listed =>
    intro x n' l hn' ha ho hl
    obtain ⟨n, hn, s⟩ := back hn'
    rw [libraries, s.library] at hl
    exact h.listed hn (s.attached ▸ ha) (s.owner ▸ ho) hl
  case member =>
    intro lib l x hl hx
    rw [libraries] at hl
    obtain ⟨n, hn, ho, hlib, ha⟩ := h.member hl hx
    have s := hg x n
    refine ⟨g x n, by rw [hm x, hn, Option.map_some], s.owner.trans ho, s.library.trans hlib,
      s.attached.trans ha⟩
  case nodup =>
    intro lib l hl
    rw [libraries] at hl
    exact h.nodup hl

theorem modifyNode (h : Shelved m) (id : NodeId) {f : Node → Node}
    (hf : ∀ n : Node, n.SamePlace (f n)) : Shelved (m.modifyNode id f) := by
  obtain ⟨g, hg, hm⟩ := exists_samePlace_of_modifyNode m id hf
  exact h.of_samePlace hg hm rfl

theorem addLibrary (h : Shelved m) (hl : l.members = []) : Shelved (m.addLibrary l).2 := by
  have nodes (x) : (m.addLibrary l).2.node? x = m.node? x := rfl
  have old {lib k} (hk : m.library? lib = some k) : (m.addLibrary l).2.library? lib = some k := by
    rw [library?_addLibrary, if_neg (ne_of_library? hk), hk]
  have cases {lib k} (hk : (m.addLibrary l).2.library? lib = some k) :
      k = l ∨ m.library? lib = some k := by
    rw [library?_addLibrary] at hk
    split at hk
    · exact .inl (Option.some.inj hk).symm
    · exact .inr hk
  constructor
  case library_exists =>
    intro x n hn
    obtain ⟨k, hk⟩ := h.library_exists hn
    exact ⟨k, old hk⟩
  case listed =>
    intro x n k hn ha ho hk
    obtain ⟨k', hk'⟩ := h.library_exists hn
    obtain rfl := Option.some.inj ((old hk').symm.trans hk)
    exact h.listed hn ha ho hk'
  case member =>
    intro lib k x hk hx
    obtain rfl | hk := cases hk
    · rw [hl] at hx
      cases hx
    · exact h.member hk hx
  case nodup =>
    intro lib k hk
    obtain rfl | hk := cases hk
    · rw [hl]
      exact List.nodup_nil
    · exact h.nodup hk

theorem appendChild (h : Shelved m) {owner : NodeId} {p : Node} (hp : m.node? owner = some p)
    (kind : NodeKind) (name : String) :
    Shelved (m.appendChild owner p.library kind name).2 := by
  have libraries (lib) :
      (m.appendChild owner p.library kind name).2.library? lib = m.library? lib := rfl
  constructor
  case library_exists =>
    intro x n hn
    rw [libraries]
    obtain ⟨-, rfl⟩ | ⟨-, rfl⟩ | ⟨-, hn⟩ := appendChild_cases hp hn
    · exact h.library_exists (n := p) hp
    · exact h.library_exists (n := p) hp
    · exact h.library_exists hn
  case listed =>
    intro x n l hn ha ho hl
    obtain ⟨-, rfl⟩ | ⟨rfl, rfl⟩ | ⟨-, hn⟩ := appendChild_cases hp hn
    · cases ho
    · exact h.listed (n := p) hp ha ho hl
    · exact h.listed hn ha ho hl
  case member =>
    intro lib l x hl hx
    obtain ⟨n, hn, hrest⟩ := h.member hl hx
    obtain ⟨cs, -, hcs⟩ := exists_node?_appendChild hp hn p.library kind name
    exact ⟨_, hcs, hrest⟩
  case nodup =>
    intro lib l hl
    exact h.nodup hl

theorem withMember (h : Shelved m) (hl : m.library? lib = some l) (kind : NodeKind)
    (name : String) : Shelved (m.withMember lib kind name) := by
  have look (x) := node?_withMember m lib kind name x
  have longer {k l} (hk : m.library? k = some l) := exists_library?_withMember hk lib kind name
  constructor
  case library_exists =>
    intro x n hn
    rw [look] at hn
    split at hn
    · obtain rfl := Option.some.inj hn
      obtain ⟨l', hl', -⟩ := longer hl
      exact ⟨l', hl'⟩
    · obtain ⟨k, hk⟩ := h.library_exists hn
      obtain ⟨k', hk', -⟩ := longer hk
      exact ⟨k', hk'⟩
  case listed =>
    intro x n k hn ha ho hk
    rw [look] at hn
    split at hn
    · next hx =>
      obtain rfl := Option.some.inj hn
      obtain ⟨l', hl', -, hnew⟩ := longer hl
      obtain rfl := Option.some.inj (hl'.symm.trans hk)
      exact hx ▸ hnew rfl
    · obtain ⟨k', hk'⟩ := h.library_exists hn
      obtain ⟨k'', hk'', hsub, -⟩ := longer hk'
      obtain rfl := Option.some.inj (hk''.symm.trans hk)
      exact hsub x (h.listed hn ha ho hk')
  case member =>
    intro k l'' x hk hx
    have old {x n} (hn : m.node? x = some n) : (m.withMember lib kind name).node? x = some n := by
      rw [look, if_neg (ne_nextId hn), hn]
    obtain ⟨l', hl', he | ⟨rfl, he⟩⟩ := withMember_cases hk
    · obtain ⟨n, hn, hrest⟩ := h.member hl' (he ▸ hx)
      exact ⟨n, old hn, hrest⟩
    · rw [he] at hx
      obtain hx | hx := List.mem_append.mp hx
      · obtain ⟨n, hn, hrest⟩ := h.member hl' hx
        exact ⟨n, old hn, hrest⟩
      · obtain rfl := List.mem_singleton.mp hx
        exact ⟨_, (look _).trans (if_pos rfl), rfl, rfl, rfl⟩
  case nodup =>
    intro k l'' hk
    obtain ⟨l', hl', he | ⟨rfl, he⟩⟩ := withMember_cases hk
    · exact he ▸ h.nodup hl'
    · rw [he]
      refine List.nodup_append.mpr ⟨h.nodup hl', by simp, fun a hx b hb => ?_⟩
      obtain rfl := List.mem_singleton.mp hb
      obtain ⟨n, hn, -⟩ := h.member hl' hx
      exact ne_nextId hn

theorem appendMember (h : Shelved m) (hl : m.library? lib = some l) (kind : NodeKind)
    (name : String) : Shelved (m.appendMember lib kind name).2 :=
  appendMember_induct lib kind name (h.withMember hl kind name)
    fun _ _ _ kind name h hp _ => h.appendChild hp kind name

/-- A node without owner is below no other node, so only its own library loses a member. -/
theorem without (h : Shelved m) (hf : Forest m) (hn : m.node? id = some n) :
    Shelved (m.without id n) := by
  have cases {k l'} (hk : (m.without id n).library? k = some l') :
      ∃ l, m.library? k = some l ∧ l'.members.Sublist l.members ∧
        (∀ x ∈ l.members, x ≠ id → x ∈ l'.members) ∧
        (n.owner = none → k = n.library → id ∉ l'.members) := by
    rw [library?_without] at hk
    split at hk
    · obtain ⟨l, hl, rfl⟩ := Option.map_eq_some_iff.mp hk
      exact ⟨l, hl, List.filter_sublist,
        fun x hx hne => List.mem_filter.mpr ⟨hx, by simpa using hne⟩, fun _ _ => by simp⟩
    · next hnot =>
      exact ⟨l', hk, List.Sublist.refl _, fun x hx _ => hx, fun ho he => absurd ⟨ho, he⟩ hnot⟩
  constructor
  case library_exists =>
    intro x k' hk'
    obtain ⟨k, hk, rfl⟩ := without_cases hk'
    obtain ⟨l, hl⟩ := h.library_exists hk
    rw [library?_without]
    split
    · exact ⟨_, by rw [Node.cut, hl, Option.map_some]⟩
    · exact ⟨l, hl⟩
  case listed =>
    intro x k' l' hk' ha ho hl'
    obtain ⟨k, hk, rfl⟩ := without_cases hk'
    obtain ⟨ha, hx⟩ := Node.attached_cut.mp ha
    obtain ⟨l, hl, -, hkept, -⟩ := cases hl'
    refine hkept x (h.listed hk ha ho hl) ?_
    rintro rfl
    exact hx (hf.mem_preorder_self hn)
  case member =>
    intro k l' x hk hx
    obtain ⟨l, hl, hsub, -, hid⟩ := cases hk
    obtain ⟨q, hq, hqo, hql, hqa⟩ := h.member hl (hsub.subset hx)
    have hnot : x ∉ m.preorder id := by
      intro hmem
      cases (hf.under_of_mem_preorder hn hmem).1 with
      | self =>
        obtain rfl := Option.some.inj (hn.symm.trans hq)
        exact hid hqo hql.symm hx
      | owned hq' ho' _ =>
        obtain rfl := Option.some.inj (hq.symm.trans hq')
        cases hqo.symm.trans ho'
    exact ⟨_, node?_without_of_node? hq id n, hqo, hql, Node.attached_cut.mpr ⟨hqa, hnot⟩⟩
  case nodup =>
    intro k l' hk
    obtain ⟨l, hl, hsub, -⟩ := cases hk
    exact (h.nodup hl).sublist hsub

/-- Every operation keeps the lists of the libraries, if new libraries list nothing. -/
theorem apply (h : Shelved m) (hf : Forest m) (op : Op) (hop : op.Bare) : Shelved (op.apply m) := by
  have hbecomes := becomes_apply hf op
  generalize op.apply m = m' at hbecomes
  cases hbecomes with
  | refused => exact h
  | addLibrary l => exact h.addLibrary hop
  | addMember hk hl name => exact h.appendMember hl _ name
  | addChild hp ha kind name => exact h.appendChild hp kind name
  | detach hn ha => exact h.without hf hn
  | modify _ id hf => exact h.modifyNode id hf

end Shelved

end SchemaEditor.Model
