import SchemaEditor.Proofs.Session.CarriedForward
import SchemaEditor.Proofs.Session.Writing

/-!
# Names among siblings

An addition finds a name that no sibling has, or is refused. A name that is given, and one that
follows a type, is not compared with those of the siblings. So two siblings come to have one derived
name only in a run that gives a name or a type, and that changes the derived name of one of them.
-/

namespace SchemaEditor

namespace Node

/-- The node is not marked anew and lists no other children. -/
def Shrinks (n n' : Node) : Prop :=
  (n'.attached = true → n.attached = true) ∧ n'.children ⊆ n.children

/-- What the derived name of the node depends on is as it was. -/
def SameNaming (n n' : Node) : Prop :=
  n'.kind = n.kind ∧ n'.owner = n.owner ∧ n'.name = n.name

theorem Shrinks.refl (n : Node) : n.Shrinks n := ⟨id, List.Subset.refl _⟩

theorem SameNaming.refl (n : Node) : n.SameNaming n := ⟨rfl, rfl, rfl⟩

theorem shrinks_released (below : List NodeId) (x : NodeId) (n : Node) (owner? : Option NodeId)
    (id : NodeId) : n.Shrinks ((n.released below x).cut below owner? id x) ∧
      n.SameNaming ((n.released below x).cut below owner? id x) := by
  have hcut (k : Node) : k.Shrinks (k.cut below owner? id x) := by
    refine ⟨fun ha => (attached_cut.mp ha).1, ?_⟩
    simp only [cut]
    split
    · exact List.filter_sublist.subset
    · exact List.Subset.refl _
  unfold released
  split
  · exact ⟨hcut _, rfl, rfl, rfl⟩
  · exact ⟨hcut _, rfl, rfl, rfl⟩

end Node

namespace Model

/-- Two attached children of an attached node have one derived name. -/
def Clash (m : Model) (a b : NodeId) : Prop :=
  a ≠ b ∧ m.IsAttached a ∧ m.IsAttached b ∧ m.nodeName a = m.nodeName b ∧
    ∃ o n, m.node? o = some n ∧ n.attached = true ∧ a ∈ n.children ∧ b ∈ n.children

/-- The attached children of a node have different derived names. -/
def DistinctChildren (m : Model) (n : Node) : Prop :=
  ∀ a ∈ n.children, ∀ b ∈ n.children, a ≠ b → m.IsAttached a → m.IsAttached b →
    m.nodeName a ≠ m.nodeName b

/-- Under every attached node, the attached children have different derived names. -/
def DistinctSiblings (m : Model) : Prop :=
  ∀ o n, m.node? o = some n → n.attached = true → m.DistinctChildren n

variable {m m' : Model} {W : NodeId → Node → Node → Prop} {new? : Option Node} {a b x : NodeId}
variable {n : Node}

theorem distinctSiblings_iff : m.DistinctSiblings ↔ ∀ a b, ¬ m.Clash a b := by
  constructor
  · rintro h a b ⟨hne, ha, hb, hname, o, n, hn, hna, hac, hbc⟩
    exact h o n hn hna a hac b hbc hne ha hb hname
  · intro h o n hn hna a hac b hbc hne ha hb hname
    exact h a b ⟨hne, ha, hb, hname, o, n, hn, hna, hac, hbc⟩

instance (m : Model) (x : NodeId) : Decidable (m.IsAttached x) :=
  decidable_of_iff ((m.node? x).any (·.attached) = true) (by simp [IsAttached, Option.any_eq_true])

instance (m : Model) (n : Node) : Decidable (m.DistinctChildren n) :=
  inferInstanceAs (Decidable (∀ a ∈ n.children, ∀ b ∈ n.children, a ≠ b → m.IsAttached a →
    m.IsAttached b → m.nodeName a ≠ m.nodeName b))

instance (m : Model) : Decidable m.DistinctSiblings :=
  decidable_of_iff (∀ o ∈ m.nodeIds, ∀ n ∈ m.node? o, n.attached = true → m.DistinctChildren n)
    ⟨fun h o n hn => h o (mem_nodeIds.mpr (lt_of_node? hn)) n hn, fun h o _ n hn => h o n hn⟩

theorem Clash.symm (h : m.Clash a b) : m.Clash b a := by
  obtain ⟨hne, ha, hb, hname, o, n, hn, hna, hac, hbc⟩ := h
  exact ⟨hne.symm, hb, ha, hname.symm, o, n, hn, hna, hbc, hac⟩

/-- The derived names of nodes that keep their names stay. -/
theorem KeepsNames.nodeName_eq (h : KeepsNames m m') (hf : Forest m) (hf' : Forest m')
    (hn : m.node? x = some n) : m'.nodeName x = m.nodeName x := by
  obtain ⟨name, hname⟩ := hf.exists_nodeName hn
  rw [hname, hf'.nodeName_of_names (h.names ((hf.names_iff hn).mpr hname))]

namespace Rewritten

theorem keepsNames (h : m.Rewritten W new? m')
    (hW : ∀ {x n n'}, W x n n' → n.SameNaming n') : KeepsNames m m' := by
  intro x n hn
  obtain ⟨n', hn', hw⟩ := h.kept hn
  exact ⟨n', hn', hW hw⟩

/-- Where no node is listed or marked anew, siblings whose names clash did so before, unless the
derived name of one of them has changed. -/
theorem clash_cases (h : m.Rewritten W none m') (hW : ∀ {x n n'}, W x n n' → n.Shrinks n')
    (hc : m'.Clash a b) :
    m.Clash a b ∨ m.nodeName a ≠ m'.nodeName a ∨ m.nodeName b ≠ m'.nodeName b := by
  by_cases ha : m.nodeName a = m'.nodeName a
  · by_cases hb : m.nodeName b = m'.nodeName b
    · have attached {x : NodeId} (hx : m'.IsAttached x) : m.IsAttached x := by
        obtain ⟨n', hn', hna⟩ := hx
        obtain ⟨n, hn, hw⟩ | ⟨-, hnew⟩ := h.cases hn'
        · exact ⟨n, hn, (hW hw).1 hna⟩
        · cases hnew
      obtain ⟨hne, haa, hba, hname, o, n', hn', hna, hac, hbc⟩ := hc
      obtain ⟨n, hn, hw⟩ | ⟨-, hnew⟩ := h.cases hn'
      · obtain ⟨hattached, hchildren⟩ := hW hw
        exact .inl ⟨hne, attached haa, attached hba, by rw [ha, hb, hname], o, n, hn, hattached hna,
          hchildren hac, hchildren hbc⟩
      · cases hnew
    · exact .inr (.inr hb)
  · exact .inr (.inl ha)

/-- Where moreover no node gets another name, siblings whose names clash did so before. -/
theorem clash (h : m.Rewritten W none m') (hf : Forest m) (hf' : Forest m')
    (hW : ∀ {x n n'}, W x n n' → n.Shrinks n' ∧ n.SameNaming n') (hc : m'.Clash a b) :
    m.Clash a b := by
  have named {x : NodeId} (hx : m'.IsAttached x) : m.nodeName x = m'.nodeName x := by
    obtain ⟨n', hn', -⟩ := hx
    obtain ⟨n, hn, -⟩ | ⟨-, hnew⟩ := h.cases hn'
    · exact ((h.keepsNames fun hw => (hW hw).2).nodeName_eq hf hf' hn).symm
    · cases hnew
  obtain hclash | ha | hb := h.clash_cases (fun hw => (hW hw).1) hc
  · exact hclash
  · exact absurd (named hc.2.1) ha
  · exact absurd (named hc.2.2.1) hb

end Rewritten

end Model

namespace Graph

open Model (Forest KeepsNames)

variable {g : Graph} {container node a b : NodeId} {kind : NodeKind} {mandatory : Bool} {m' : Model}

namespace GrownBelow

theorem keepsNames (h : g.GrownBelow container kind mandatory m') : KeepsNames g.model m' := by
  obtain ⟨p, taken, name, -, -, -, -, hgrown⟩ := h
  refine hgrown.keepsNames fun {x n n'} hw => ?_
  rw [hw]
  split <;> exact .refl n

/-- The name of the new node clashes with that of no sibling. -/
theorem not_clash (h : g.GrownBelow container kind mandatory m') (hf : Forest g.model)
    (hf' : Forest m') (hkind : kind.ending? = none) : ¬ m'.Clash g.model.nextId b := by
  rintro ⟨hne, -, -, hname, o, n', hn', -, hac, hbc⟩
  have hnames := h.keepsNames
  obtain ⟨p, taken, name, hp, -, htaken, hfree, hgrown⟩ := h
  rw [Model.nodeName_of_given (hgrown.added rfl) hkind] at hname
  obtain ⟨n, hn, hw⟩ | ⟨-, hnew⟩ := hgrown.cases hn'
  · -- Only the container lists the new node, and its names were taken.
    obtain rfl : o = container := by
      by_contra hother
      obtain rfl := hw.trans (if_neg hother)
      obtain ⟨k, hk, -⟩ := hf.owned hn hac
      exact Model.ne_nextId hk rfl
    obtain rfl := Option.some.inj (hn.symm.trans hp)
    obtain rfl := hw.trans (if_pos rfl)
    have hb : b ∈ n.children := by simpa [hne.symm] using hbc
    obtain ⟨k, hk, -⟩ := hf.owned hn hb
    rw [hnames.nodeName_eq hf hf' hk] at hname
    exact hfree ((Model.mem_childNames_iff hn htaken).mpr ⟨b, hb, hname.symm⟩)
  · obtain rfl := Option.some.inj hnew
    cases hac

/-- What clashes after an addition clashed before. -/
theorem clash (h : g.GrownBelow container kind mandatory m') (hf : Forest g.model)
    (hf' : Forest m') (hkind : kind.ending? = none) (hc : m'.Clash a b) : g.model.Clash a b := by
  have hnames := h.keepsNames
  have ha : a ≠ g.model.nextId := by
    rintro rfl
    exact h.not_clash hf hf' hkind hc
  have hb : b ≠ g.model.nextId := by
    rintro rfl
    exact h.not_clash hf hf' hkind hc.symm
  obtain ⟨p, taken, name, -, -, -, -, hgrown⟩ := h
  have old {x : NodeId} {k' : Node} (hx : x ≠ g.model.nextId) (hk' : m'.node? x = some k') :
      ∃ k, g.model.node? x = some k ∧ k'.attached = k.attached ∧
        ∀ c ∈ k'.children, c ≠ g.model.nextId → c ∈ k.children := by
    obtain ⟨k, hk, rfl⟩ | ⟨hnew, -⟩ := hgrown.cases hk'
    · refine ⟨k, hk, ?_⟩
      split
      · exact ⟨rfl, fun c hc hnew => by simpa [hnew] using hc⟩
      · exact ⟨rfl, fun c hc _ => hc⟩
    · exact absurd hnew hx
  have attached {x : NodeId} (hx : x ≠ g.model.nextId) (h : m'.IsAttached x) :
      g.model.IsAttached x ∧ m'.nodeName x = g.model.nodeName x := by
    obtain ⟨k', hk', hka⟩ := h
    obtain ⟨k, hk, hsame, -⟩ := old hx hk'
    exact ⟨⟨k, hk, hsame ▸ hka⟩, hnames.nodeName_eq hf hf' hk⟩
  obtain ⟨hne, haa, hba, hname, o, n', hn', hna, hac, hbc⟩ := hc
  have ho : o ≠ g.model.nextId := by
    rintro rfl
    obtain rfl := Option.some.inj ((hgrown.added rfl).symm.trans hn')
    cases hac
  obtain ⟨n, hn, hsame, hchildren⟩ := old ho hn'
  obtain ⟨haa, hanamed⟩ := attached ha haa
  obtain ⟨hba, hbnamed⟩ := attached hb hba
  exact ⟨hne, haa, hba, by rw [← hanamed, hname, hbnamed], o, n, hn, hsame ▸ hna,
    hchildren a hac ha, hchildren b hbc hb⟩

end GrownBelow

end Graph

namespace Request

open Model (Forest)

variable {r : Request} {g : Graph} {node a b : NodeId} {m' : Model}

/-- The actions that give names, or types that names follow. -/
def Names (r : Request) : Prop := r.action = .setName ∨ r.action = .assignType

/-- A clash was there before a request, or a name was given and has made it. -/
theorem Writes.clash_cases (hf : Forest g.model) (hf' : Forest m') (h : r.Writes g node m')
    (hc : m'.Clash a b) :
    g.model.Clash a b ∨ r.Names ∧
      (g.model.nodeName a ≠ m'.nodeName a ∨ g.model.nodeName b ≠ m'.nodeName b) := by
  -- One node is written, and neither its name nor its place.
  have written {f : Node → Node} (h : g.WrittenAt node f m')
      (hkept : ∀ n : Node, n.Shrinks (f n) ∧ n.SameNaming (f n)) : g.model.Clash a b := by
    refine h.clash hf hf' (fun {x n n'} hw => ?_) hc
    rw [hw]
    split
    · exact hkept n
    · exact ⟨.refl n, .refl n⟩
  obtain ⟨action, subject, param⟩ := r
  cases action with
  | setName =>
    obtain ⟨_, -, hrenamed⟩ := h
    refine (hrenamed.clash_cases (fun {x n n'} hw => ?_) hc).imp_right fun hname =>
      ⟨.inl rfl, hname⟩
    obtain rfl | ⟨-, _, rfl⟩ := hw <;> exact .refl _
  | assignType =>
    obtain ⟨_, _, -, -, hassigned⟩ := h
    refine (hassigned.clash_cases (fun {x n n'} hw => ?_) hc).imp_right fun hname =>
      ⟨.inr rfl, hname⟩
    obtain ⟨_, -, rfl⟩ := hw
    split <;> exact .refl n
  | setDescription | setExample | setDeprecation =>
    obtain ⟨_, -, hwritten⟩ := h
    exact .inl (written hwritten fun n => ⟨.refl n, .refl n⟩)
  | setMandatory =>
    obtain ⟨_, -, hwritten⟩ := h
    exact .inl (written hwritten fun n => ⟨.refl n, .refl n⟩)
  | clearType | clearBaseType => exact .inl (written h fun n => ⟨.refl n, .refl n⟩)
  | setBaseType =>
    obtain ⟨_, _, -, -, hwritten⟩ := h
    exact .inl (written hwritten fun n => ⟨.refl n, .refl n⟩)
  | addProperty =>
    obtain ⟨_, _, -, -, hgrown⟩ := h
    exact .inl (hgrown.clash hf hf' rfl hc)
  | addAlias | addEnumValue => exact .inl (h.clash hf hf' rfl hc)
  | deleteProperty | deleteAlias | deleteEnumValue =>
    obtain ⟨_, _, -, -, hcut⟩ := h
    exact .inl (hcut.clash hf hf' (fun hw => hw ▸ Node.shrinks_released ..) hc)

end Request

namespace Session

open SchemaEditor.Graph (Managed)
open Outcome (Occurs foldl_keeps)

variable {s : Session} {c : Call} {calls : List Call} {a b : NodeId}

/-- A run gives a name or a type, which changes the derived name of one of two siblings, and since
then they have one name. -/
def Call.Confuses (s : Session) (c : Call) (a b : NodeId) : Prop :=
  ∃ action subject param o s', c = .run action subject param ∧
    (action = .setName ∨ action = .assignType) ∧ Session.run action subject param s = .ok o s' ∧
    (s.graph.model.nodeName a ≠ s'.graph.model.nodeName a ∨
      s.graph.model.nodeName b ≠ s'.graph.model.nodeName b) ∧
    ¬ s.graph.model.Clash a b ∧ s'.graph.model.Clash a b

/-- A clash was there before a call, or the call has made it. -/
theorem Call.clash_cases (hg : Managed s.graph) (hc : c.Mediated)
    (h : (c.apply s).graph.model.Clash a b) : s.graph.model.Clash a b ∨ c.Confuses s a b := by
  by_cases hbefore : s.graph.model.Clash a b
  · exact .inl hbefore
  refine .inr ?_
  have hf' := ((c.evolves hg).managed hg).forest
  obtain ⟨r, hperforms⟩ | ⟨-, hmodel⟩ := c.exists_performs_or hg hc
  · obtain ⟨node, -, hwrites⟩ := hperforms.writes hg
    obtain hclash | ⟨hnames, hchanged⟩ := hwrites.clash_cases hg.forest hf' h
    · exact absurd hclash hbefore
    · obtain ⟨rfl, o, s', hrun⟩ := hperforms
      simp only [Call.apply, hrun] at h hchanged
      exact ⟨r.action, r.subject, r.param, o, s', rfl, hnames, hrun, hchanged, hbefore, h⟩
  · exact absurd (hmodel ▸ h) hbefore

theorem clash_after (hg : Managed s.graph) (hcalls : ∀ c ∈ calls, c.Mediated)
    (h : (s.after calls).graph.model.Clash a b) : s.graph.model.Clash a b ∨
      Occurs Call.apply (fun s c => c.Confuses s a b) s calls := by
  by_contra hnone
  obtain ⟨hbefore, hnone⟩ := not_or.mp hnone
  refine (foldl_keeps (I := fun s => Managed s.graph ∧ ¬ s.graph.model.Clash a b)
    (fun {s c} hc ⟨hg, hclash⟩ hconfuses => ?_) ⟨hg, hbefore⟩ hnone).2 h
  refine ⟨(c.evolves hg).managed hg, fun hafter => ?_⟩
  exact (c.clash_cases hg (hcalls c hc) hafter).elim hclash hconfuses

/-- In a session over any snapshot, whatever its history, in which siblings have different names: if
two siblings have one derived name after a sequence of runs and lookups, then a run of the sequence
that gives a name or a type has made it so, by changing the derived name of one of them. -/
theorem names_clash_by_naming_only {snapshot : Snapshot} {loaded : Snapshot.Loaded} {v : Versioning}
    {g : Graph} (hload : snapshot.load = .ok loaded) (hgraph : Graph.ofModel loaded.model v = .ok g)
    (history calls : List Call) (hcalls : ∀ c ∈ calls, c.Mediated)
    (hdistinct : ((ofGraph g).after history).graph.model.DistinctSiblings)
    (hclash : (((ofGraph g).after history).after calls).graph.model.Clash a b) :
    ∃ before c rest, calls = before ++ c :: rest ∧
      c.Confuses (((ofGraph g).after history).after before) a b := by
  obtain ⟨_, hgraph', -, -, hsound⟩ := exists_sound_of_load hload v
  obtain rfl := Except.ok.inj (hgraph'.symm.trans hgraph)
  exact (clash_after (hsound.after history).managed hcalls hclash).resolve_left
    (Model.distinctSiblings_iff.mp hdistinct a b)

end Session

namespace Snapshot

open Session (Call)

/-- An object with two references without types and two elements, and an object to refer to. -/
def orderOfProducts : Snapshot :=
  shop
    [.object "Product" none [],
    .object "Order" none
      [⟨.property .elementRef, "MainRef", none, true, ""⟩,
        ⟨.property .elementRef, "SpareRef", none, true, ""⟩,
        ⟨.property .element, "Total", none, true, ""⟩, ⟨.property .element, "Sum", none, true, ""⟩]]

/-- The object to refer to, the references and the first element, as the facades from 0 to 3. -/
def orderOfProductsOpened : List Call :=
  [0, 8, 9, 10].map fun i => .graph (.facadeFor ⟨i⟩)

/-- Both references are given the same type. -/
def assignProductTwice : List Call :=
  [.run .assignType ⟨1⟩ (some (.provider ⟨0⟩)), .run .assignType ⟨2⟩ (some (.provider ⟨0⟩))]

/-- Both references have one name after they were given a type, and it is this that made it so. -/
theorem clash_orderOfProducts :
    ∃ loaded g a b, orderOfProducts.load = .ok loaded ∧
      Graph.ofModel loaded.model (.chain none) = .ok g ∧
      let start := (Session.ofGraph g).after orderOfProductsOpened
      start.graph.model.DistinctSiblings ∧
      (start.after assignProductTwice).graph.model.Clash a b ∧
      ∃ before c rest, assignProductTwice = before ++ c :: rest ∧
        c.Confuses (start.after before) a b := by
  obtain ⟨loaded, g, hload, hgraph, hp⟩ := exists_graph (s := orderOfProducts) (v := .chain none)
    (p := fun g =>
      let start := (Session.ofGraph g).after orderOfProductsOpened
      decide (start.graph.model.DistinctSiblings ∧
        ¬ (start.after assignProductTwice).graph.model.DistinctSiblings)) (by decide +kernel)
  obtain ⟨hdistinct, hclash⟩ := of_decide_eq_true hp
  rw [Model.distinctSiblings_iff] at hclash
  push Not at hclash
  obtain ⟨a, b, hclash⟩ := hclash
  have hcalls : ∀ c ∈ assignProductTwice, c.Mediated := by
    simp [assignProductTwice, Call.Mediated]
  exact ⟨loaded, g, a, b, hload, hgraph, hdistinct, hclash,
    Session.names_clash_by_naming_only hload hgraph _ _ hcalls hdistinct hclash⟩

/-- An element is renamed to the name of its sibling, or two references take one name from their
type: siblings with different names do not keep them different. -/
theorem siblings_come_to_clash :
    ∃ loaded g, orderOfProducts.load = .ok loaded ∧
      Graph.ofModel loaded.model (.chain none) = .ok g ∧
      let start := (Session.ofGraph g).after orderOfProductsOpened
      start.graph.model.DistinctSiblings ∧
      ¬ (start.after [.run .setName ⟨3⟩ (some (.text "Sum"))]).graph.model.DistinctSiblings ∧
      ¬ (start.after assignProductTwice).graph.model.DistinctSiblings := by
  obtain ⟨loaded, g, hload, hgraph, hp⟩ := exists_graph (s := orderOfProducts) (v := .chain none)
    (p := fun g =>
      let start := (Session.ofGraph g).after orderOfProductsOpened
      decide (start.graph.model.DistinctSiblings ∧
        ¬ (start.after [.run .setName ⟨3⟩ (some (.text "Sum"))]).graph.model.DistinctSiblings ∧
        ¬ (start.after assignProductTwice).graph.model.DistinctSiblings)) (by decide +kernel)
  exact ⟨loaded, g, hload, hgraph, of_decide_eq_true hp⟩

end Snapshot

end SchemaEditor
