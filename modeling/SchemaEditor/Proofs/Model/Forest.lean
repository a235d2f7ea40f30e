import SchemaEditor.Proofs.Model.Lookup

/-!
# Owners and children

`Forest` states how owners and children of a model agree. Owners come before what they own, so
climbing from owner to owner ends at a member; `Under` is that climb, and `memberOf` its end. The
operations that leave owners and children as they are keep a forest, and so does a new member or a
new child of an attached node.
-/

namespace SchemaEditor

/-- Two nodes with the same kind at the same place, attached or detached alike. -/
structure Node.SamePlace (n n' : Node) : Prop where
  kind : n'.kind = n.kind
  library : n'.library = n.library
  owner : n'.owner = n.owner
  children : n'.children = n.children
  attached : n'.attached = n.attached

theorem Node.SamePlace.refl (n : Node) : n.SamePlace n := ⟨rfl, rfl, rfl, rfl, rfl⟩

theorem Node.SamePlace.trans {n n' n'' : Node} (h : n.SamePlace n') (h' : n'.SamePlace n'') :
    n.SamePlace n'' :=
  ⟨h'.kind.trans h.kind, h'.library.trans h.library, h'.owner.trans h.owner,
    h'.children.trans h.children, h'.attached.trans h.attached⟩

namespace Model

variable {m m' : Model} {id top x y : NodeId} {n : Node}

/-- Owners and children agree, and what is attached hangs together. -/
structure Forest (m : Model) : Prop where
  owner_lt : ∀ {id n o}, m.node? id = some n → n.owner = some o → o.index < id.index
  root_kind : ∀ {id n}, m.node? id = some n → n.owner = none → n.kind.isMember = true
  same_library : ∀ {id n o p}, m.node? id = some n → n.owner = some o → m.node? o = some p →
    n.library = p.library
  listed : ∀ {id n o}, m.node? id = some n → n.attached = true → n.owner = some o →
    ∃ p, m.node? o = some p ∧ p.attached = true ∧ id ∈ p.children
  owned : ∀ {id n c}, m.node? id = some n → c ∈ n.children →
    ∃ k, m.node? c = some k ∧ k.owner = some id ∧ (n.attached = true → k.attached = true)
  nodup : ∀ {id n}, m.node? id = some n → n.children.Nodup

/-- A change of one node that keeps its place keeps the places of all nodes. -/
theorem exists_samePlace_of_modifyNode (m : Model) (id : NodeId) {f : Node → Node}
    (hf : ∀ n : Node, n.SamePlace (f n)) :
    ∃ g : NodeId → Node → Node, (∀ x (n : Node), n.SamePlace (g x n)) ∧
      ∀ x, (m.modifyNode id f).node? x = (m.node? x).map (g x) := by
  refine ⟨fun x n => if x = id then f n else n, fun x n => ?_, fun x => ?_⟩
  · by_cases hx : x = id
    · simpa [hx] using hf n
    · simpa [hx] using .refl n
  · rw [node?_modifyNode]
    by_cases hx : x = id <;> simp [hx]

namespace Forest

theorem empty : Forest .empty := by
  constructor <;> intro id <;> simp [node?, Model.empty]

/-- The owner of a node is a node. -/
theorem owner_exists (h : Forest m) (hn : m.node? id = some n) {o : NodeId}
    (ho : n.owner = some o) : ∃ p, m.node? o = some p :=
  exists_node? (Nat.lt_trans (h.owner_lt hn ho) (lt_of_node? hn))

theorem child_lt (h : Forest m) (hn : m.node? id = some n) {c : NodeId} (hc : c ∈ n.children) :
    id.index < c.index := by
  obtain ⟨k, hk, ho, -⟩ := h.owned hn hc
  exact h.owner_lt hk ho

/-! ### Operations that keep a forest -/

theorem of_samePlace (h : Forest m) {g : NodeId → Node → Node}
    (hg : ∀ x (n : Node), n.SamePlace (g x n)) (hm : ∀ x, m'.node? x = (m.node? x).map (g x)) :
    Forest m' := by
  -- Every node of `m'` comes from the node of `m` at the same place.
  have back {x n'} (hn' : m'.node? x = some n') : ∃ n, m.node? x = some n ∧ n.SamePlace n' := by
    rw [hm x, Option.map_eq_some_iff] at hn'
    obtain ⟨n, hn, rfl⟩ := hn'
    exact ⟨n, hn, hg x n⟩
  have forth {x n} (hn : m.node? x = some n) : ∃ n', m'.node? x = some n' ∧ n.SamePlace n' :=
    ⟨g x n, by rw [hm x, hn, Option.map_some], hg x n⟩
  constructor
  case owner_lt =>
    intro id n' o hn' ho
    obtain ⟨n, hn, s⟩ := back hn'
    exact h.owner_lt hn (s.owner ▸ ho)
  case root_kind =>
    intro id n' hn' ho
    obtain ⟨n, hn, s⟩ := back hn'
    rw [s.kind]
    exact h.root_kind hn (s.owner ▸ ho)
  case same_library =>
    intro id n' o p' hn' ho hp'
    obtain ⟨n, hn, s⟩ := back hn'
    obtain ⟨p, hp, t⟩ := back hp'
    rw [s.library, t.library]
    exact h.same_library hn (s.owner ▸ ho) hp
  case listed =>
    intro id n' o hn' ha ho
    obtain ⟨n, hn, s⟩ := back hn'
    obtain ⟨p, hp, hpa, hmem⟩ := h.listed hn (s.attached ▸ ha) (s.owner ▸ ho)
    obtain ⟨p', hp', t⟩ := forth hp
    exact ⟨p', hp', t.attached ▸ hpa, t.children ▸ hmem⟩
  case owned =>
    intro id n' c hn' hc
    obtain ⟨n, hn, s⟩ := back hn'
    obtain ⟨k, hk, ho, ha⟩ := h.owned hn (s.children ▸ hc)
    obtain ⟨k', hk', t⟩ := forth hk
    exact ⟨k', hk', t.owner ▸ ho, fun hna => t.attached ▸ ha (s.attached ▸ hna)⟩
  case nodup =>
    intro id n' hn'
    obtain ⟨n, hn, s⟩ := back hn'
    exact s.children ▸ h.nodup hn

theorem of_nodes (h : Forest m) (hm : m'.nodes = m.nodes) : Forest m' :=
  h.of_samePlace (g := fun _ n => n) (fun _ n => .refl n) fun x => by simp [node?, hm]

theorem modifyNode (h : Forest m) (id : NodeId) {f : Node → Node}
    (hf : ∀ n : Node, n.SamePlace (f n)) : Forest (m.modifyNode id f) := by
  obtain ⟨g, hg, hm⟩ := exists_samePlace_of_modifyNode m id hf
  exact h.of_samePlace hg hm

/-- A new member that nothing hangs below yet. -/
theorem pushed (h : Forest m) {kind : NodeKind} (hk : kind.isMember = true)
    (library : LibraryId) (name : String) :
    Forest (m.pushed (.fresh kind library none name)) := by
  have old {x n'} (hn' : (m.pushed (.fresh kind library none name)).node? x = some n') :
      n' = .fresh kind library none name ∨ m.node? x = some n' := by
    rw [node?_pushed] at hn'
    split at hn'
    · exact .inl (Option.some.inj hn').symm
    · exact .inr hn'
  have new {x n} (hn : m.node? x = some n) :
      (m.pushed (.fresh kind library none name)).node? x = some n := by
    rw [node?_pushed, if_neg (ne_nextId hn), hn]
  constructor
  case owner_lt =>
    intro id n o hn ho
    obtain rfl | hn := old hn
    · cases ho
    · exact h.owner_lt hn ho
  case root_kind =>
    intro id n hn ho
    obtain rfl | hn := old hn
    · exact hk
    · exact h.root_kind hn ho
  case same_library =>
    intro id n o p hn ho hp
    obtain rfl | hn := old hn
    · cases ho
    · obtain ⟨q, hq⟩ := h.owner_exists hn ho
      obtain rfl : q = p := Option.some.inj ((new hq).symm.trans hp)
      exact h.same_library hn ho hq
  case listed =>
    intro id n o hn ha ho
    obtain rfl | hn := old hn
    · cases ho
    · obtain ⟨p, hp, hpa, hmem⟩ := h.listed hn ha ho
      exact ⟨p, new hp, hpa, hmem⟩
  case owned =>
    intro id n c hn hc
    obtain rfl | hn := old hn
    · cases hc
    · obtain ⟨k, hk, ho, ha⟩ := h.owned hn hc
      exact ⟨k, new hk, ho, ha⟩
  case nodup =>
    intro id n hn
    obtain rfl | hn := old hn
    · exact List.nodup_nil
    · exact h.nodup hn

/-- A new child at the end of the children of an attached node. -/
theorem appendChild (h : Forest m) {owner : NodeId} {p : Node} (hp : m.node? owner = some p)
    (ha : p.attached = true) (kind : NodeKind) (name : String) :
    Forest (m.appendChild owner p.library kind name).2 := by
  have own := node?_appendChild_owner hp p.library kind name
  have kept {x n} (hn : m.node? x = some n) := exists_node?_appendChild hp hn p.library kind name
  constructor
  case owner_lt =>
    intro x n o hn ho
    obtain ⟨rfl, rfl⟩ | ⟨rfl, rfl⟩ | ⟨-, hn⟩ := appendChild_cases hp hn
    · obtain rfl : owner = o := Option.some.inj ho
      exact lt_of_node? hp
    · exact h.owner_lt (n := p) hp ho
    · exact h.owner_lt hn ho
  case root_kind =>
    intro x n hn ho
    obtain ⟨rfl, rfl⟩ | ⟨rfl, rfl⟩ | ⟨-, hn⟩ := appendChild_cases hp hn
    · cases ho
    · exact h.root_kind (n := p) hp ho
    · exact h.root_kind hn ho
  case same_library =>
    intro x n o q hn ho hq
    have owners {x n} (hn : m.node? x = some n) (ho : n.owner = some o) :
        n.library = q.library := by
      obtain ⟨q', hq'⟩ := h.owner_exists hn ho
      obtain ⟨cs, -, hcs⟩ := kept hq'
      rw [h.same_library hn ho hq', ← Option.some.inj (hcs.symm.trans hq)]
    obtain ⟨rfl, rfl⟩ | ⟨rfl, rfl⟩ | ⟨-, hn⟩ := appendChild_cases hp hn
    · obtain rfl : owner = o := Option.some.inj ho
      rw [← Option.some.inj (own.symm.trans hq)]
      rfl
    · exact owners (n := p) hp ho
    · exact owners hn ho
  case listed =>
    intro x n o hn ha' ho
    have owners {x n} (hn : m.node? x = some n) (ha' : n.attached = true)
        (ho : n.owner = some o) :
        ∃ q, (m.appendChild owner p.library kind name).2.node? o = some q ∧
          q.attached = true ∧ x ∈ q.children := by
      obtain ⟨q, hq, hqa, hmem⟩ := h.listed hn ha' ho
      obtain ⟨cs, hsub, hcs⟩ := kept hq
      exact ⟨_, hcs, hqa, hsub.subset hmem⟩
    obtain ⟨rfl, rfl⟩ | ⟨rfl, rfl⟩ | ⟨-, hn⟩ := appendChild_cases hp hn
    · obtain rfl : owner = o := Option.some.inj ho
      exact ⟨_, own, ha, List.mem_append_right _ (List.mem_singleton.mpr rfl)⟩
    · exact owners (n := p) hp ha' ho
    · exact owners hn ha' ho
  case owned =>
    intro x n c hn hc
    have children {x n} (hn : m.node? x = some n) (hc : c ∈ n.children) :
        ∃ k, (m.appendChild owner p.library kind name).2.node? c = some k ∧ k.owner = some x ∧
          (n.attached = true → k.attached = true) := by
      obtain ⟨k, hk, ho, hka⟩ := h.owned hn hc
      obtain ⟨cs, -, hcs⟩ := kept hk
      exact ⟨_, hcs, ho, hka⟩
    obtain ⟨rfl, rfl⟩ | ⟨rfl, rfl⟩ | ⟨-, hn⟩ := appendChild_cases hp hn
    · cases hc
    · obtain hc | hc := List.mem_append.mp hc
      · exact children (n := p) hp hc
      · obtain rfl := List.mem_singleton.mp hc
        exact ⟨_, (node?_appendChild hp p.library kind name _).trans (if_pos rfl), rfl,
          fun _ => rfl⟩
    · exact children hn hc
  case nodup =>
    intro x n hn
    obtain ⟨rfl, rfl⟩ | ⟨rfl, rfl⟩ | ⟨-, hn⟩ := appendChild_cases hp hn
    · exact List.nodup_nil
    · refine List.nodup_append.mpr ⟨h.nodup hp, by simp, fun a hc b hb => ?_⟩
      obtain rfl := List.mem_singleton.mp hb
      obtain ⟨k, hk, -⟩ := h.owned hp hc
      exact ne_nextId hk
    · exact h.nodup hn

end Forest

/-! ### Climbing -/

/-- `top` is met on the way from a node to its member, the node itself included. -/
inductive Under (m : Model) (top : NodeId) : NodeId → Prop
  | self : Under m top top
  | owned {id n o} (hn : m.node? id = some n) (ho : n.owner = some o) (h : Under m top o) :
      Under m top id

namespace Under

theorem trans (h : Under m top x) (h' : Under m x y) : Under m top y := by
  induction h' with
  | self => exact h
  | owned hn ho _ ih => exact .owned hn ho ih

theorem of_extends (h : Under m top x) (hm : Extends m m') : Under m' top x := by
  induction h with
  | self => exact .self
  | owned hn ho _ ih =>
    obtain ⟨n', hn', -, ho', -⟩ := hm.same hn
    exact .owned hn' (ho'.trans ho) ih

/-- Below a node that was there, a larger model has no other way up. -/
theorem of_extended (h : Under m' top x) (hf : Forest m) (hm : Extends m m')
    (hx : m.node? x = some n) : Under m top x := by
  induction h generalizing n with
  | self => exact .self
  | owned hn ho _ ih =>
    obtain ⟨n', hn', -, ho', -⟩ := hm.same hx
    obtain rfl := Option.some.inj (hn'.symm.trans hn)
    obtain ⟨p, hp⟩ := hf.owner_exists hx (ho'.symm.trans ho)
    exact .owned hx (ho'.symm.trans ho) (ih hp)

/-- Of two nodes above a third one, one is above the other. -/
theorem total {a b : NodeId} (ha : Under m a x) (hb : Under m b x) :
    Under m a b ∨ Under m b a := by
  induction ha with
  | self => exact .inr hb
  | owned hn ho hup ih =>
    cases hb with
    | self => exact .inl (.owned hn ho hup)
    | owned hn' ho' hb =>
      obtain rfl := Option.some.inj (hn.symm.trans hn')
      obtain rfl := Option.some.inj (ho.symm.trans ho')
      exact ih hb

/-- A member above a node is above everything else above it. -/
theorem above {t : Node} (ht : m.node? top = some t) (hroot : t.owner = none)
    (hx : Under m top x) (hy : Under m y x) : Under m top y := by
  obtain hup | hup := hx.total hy
  · exact hup
  · cases hup with
    | self => exact .self
    | owned ht' ho _ =>
      obtain rfl := Option.some.inj (ht'.symm.trans ht)
      cases hroot.symm.trans ho

end Under

namespace Forest

theorem le_of_under (h : Forest m) (hu : Under m top x) : top.index ≤ x.index := by
  induction hu with
  | self => exact Nat.le_refl _
  | owned hn ho _ ih => exact Nat.le_trans ih (Nat.le_of_lt (h.owner_lt hn ho))

theorem top_exists (h : Forest m) (hu : Under m top x) (hx : m.node? x = some n) :
    ∃ t, m.node? top = some t :=
  exists_node? (Nat.lt_of_le_of_lt (h.le_of_under hu) (lt_of_node? hx))

theorem library_of_under (h : Forest m) {t : Node} (hu : Under m top x)
    (hx : m.node? x = some n) (ht : m.node? top = some t) : n.library = t.library := by
  induction hu generalizing n with
  | self => rw [Option.some.inj (ht.symm.trans hx)]
  | owned hn ho _ ih =>
    obtain rfl := Option.some.inj (hn.symm.trans hx)
    obtain ⟨p, hp⟩ := h.owner_exists hx ho
    exact (h.same_library hx ho hp).trans (ih hp)

/-! ### Members -/

theorem memberOf_of_root (hn : m.node? id = some n) (ho : n.owner = none) :
    m.memberOf id = .ok id := by
  rw [memberOf, node_of_node? hn]
  simp [ho]

theorem memberOf_of_owner (h : Forest m) (hn : m.node? id = some n) {o : NodeId}
    (ho : n.owner = some o) : m.memberOf id = m.memberOf o := by
  rw [memberOf, node_of_node? hn]
  simp [ho, h.owner_lt hn ho]

/-- Climbing from any node ends at a member. -/
theorem exists_memberOf (h : Forest m) {id : NodeId} {n : Node} (hn : m.node? id = some n) :
    ∃ top t, m.memberOf id = .ok top ∧ m.node? top = some t ∧ t.owner = none ∧
      Under m top id := by
  cases ho : n.owner with
  | none => exact ⟨id, n, memberOf_of_root hn ho, hn, ho, .self⟩
  | some o =>
    have hlt := h.owner_lt hn ho
    obtain ⟨p, hp⟩ := h.owner_exists hn ho
    obtain ⟨top, t, hm, ht, hroot, hu⟩ := h.exists_memberOf hp
    exact ⟨top, t, (h.memberOf_of_owner hn ho).trans hm, ht, hroot, .owned hn ho hu⟩
termination_by id.index

theorem memberOf_eq_of_under (h : Forest m) (hu : Under m top x) (hx : m.node? x = some n) :
    m.memberOf x = m.memberOf top := by
  induction hu generalizing n with
  | self => rfl
  | owned hn ho _ ih =>
    obtain ⟨p, hp⟩ := h.owner_exists hn ho
    exact (h.memberOf_of_owner hn ho).trans (ih hp)

/-- The member of a node is the one node without owner above it. -/
theorem memberOf_eq_ok_iff (h : Forest m) (hx : m.node? x = some n) :
    m.memberOf x = .ok top ↔ (∃ t, m.node? top = some t ∧ t.owner = none) ∧ Under m top x := by
  constructor
  · intro hm
    obtain ⟨top', t, hm', ht, hroot, hu⟩ := h.exists_memberOf hx
    obtain rfl := Except.ok.inj (hm'.symm.trans hm)
    exact ⟨⟨t, ht, hroot⟩, hu⟩
  · rintro ⟨⟨t, ht, hroot⟩, hu⟩
    exact (h.memberOf_eq_of_under hu hx).trans (memberOf_of_root ht hroot)

/-- The member of a node stays its member in every larger model. -/
theorem memberOf_of_extends (h : Forest m) (h' : Forest m') (hm : Extends m m')
    (hx : m.node? x = some n) : m'.memberOf x = m.memberOf x := by
  obtain ⟨top, t, hmem, ht, hroot, hu⟩ := h.exists_memberOf hx
  obtain ⟨n', hn', -⟩ := hm.same hx
  obtain ⟨t', ht', -, ho', -⟩ := hm.same ht
  rw [hmem]
  exact (h'.memberOf_eq_ok_iff hn').mpr ⟨⟨t', ht', ho'.trans hroot⟩, hu.of_extends hm⟩

end Forest

end Model

end SchemaEditor
