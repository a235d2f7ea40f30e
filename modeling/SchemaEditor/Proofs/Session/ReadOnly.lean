import SchemaEditor.Proofs.Session.Writing

/-!
# What becomes of read-only libraries

No run is performed on a subject in a read-only library. Two kinds of runs on subjects elsewhere
still reach into it, because names follow types and because no reference is left to what was
deleted: a new name changes the names that follow it, and a deletion clears the references into what
it deletes. Apart from that, the nodes of the library are as they were.
-/

namespace SchemaEditor

/-- What a request may do to a node of another member than that of its subject: give it the name
that follows its type, if the subject is renamed, and clear its references to nodes that are
gone. -/
structure Request.Spares (r : Request) (g : Graph) (node : NodeId) (gone : List NodeId) (x : NodeId)
    (n n' : Node) : Prop where
  same : n' = { n with name := n'.name, typeRef := n'.typeRef, base := n'.base }
  named : n'.name = n.name ∨ r.action = .setName ∧
    ∃ k, g.model.node? node = some k ∧ g.Follower (g.namedBy node k) x
  /-- A reference is cleared if its target is gone, and else it is kept. -/
  refers : ∀ slot : Usage.Slot, slot.reference n' = (slot.reference n).filter (· ∉ gone)

namespace Request

open Model (Bare Forest)

variable {r : Request} {g : Graph} {node container x : NodeId} {n k k' : Node} {m' : Model}
variable {gone : List NodeId}

/-- A reference that leads to nothing that is gone is kept. -/
theorem filter_not_mem_eq {target? : Option NodeId} (h : ∀ p ∈ gone, target? ≠ some p) :
    target?.filter (· ∉ gone) = target? := by
  cases target? with
  | none => rfl
  | some p => simpa using fun hp => h p hp rfl

theorem Spares.refl (r : Request) (g : Graph) (node x : NodeId) (n : Node) :
    r.Spares g node [] x n n :=
  ⟨rfl, .inl rfl, fun _ => (filter_not_mem_eq (List.forall_mem_nil _)).symm⟩

theorem Spares.reference_eq (h : r.Spares g node gone x n k) (slot : Usage.Slot)
    (hgone : ∀ p ∈ gone, slot.reference n ≠ some p) : slot.reference k = slot.reference n :=
  (h.refers slot).trans (filter_not_mem_eq hgone)

/-- Nodes of one member lie in one library. -/
theorem library_eq_of_memberOf_eq (hf : Forest g.model) (hn : g.model.node? node = some n)
    (hk : g.model.node? container = some k)
    (h : g.model.memberOf container = g.model.memberOf node) : k.library = n.library := by
  obtain ⟨top, t, hm, ht, hroot, hu⟩ := hf.exists_memberOf hn
  rw [hm] at h
  obtain ⟨-, hcontainer⟩ := (hf.memberOf_eq_ok_iff hk).mp h
  rw [hf.library_of_under hcontainer hk ht, hf.library_of_under hu hn ht]

/-- A deletion takes nothing from the nodes of other members but references to what it deletes. -/
theorem spares_of_cutOff (hf : Forest g.model) (hb : Bare g.model)
    (hn : g.model.node? node = some n) (hk : g.model.node? x = some k)
    (hmember : g.model.memberOf x ≠ g.model.memberOf node) (h : g.CutOff node m') :
    ∃ k', m'.node? x = some k' ∧ r.Spares g node (g.model.preorder node) x k k' := by
  obtain ⟨n₀, below, hn₀, hbelow, hcut⟩ := h
  obtain rfl := Option.some.inj (hn.symm.trans hn₀)
  obtain rfl := Except.ok.inj ((hf.subtree_eq hn).symm.trans hbelow)
  have hx : x ∉ g.model.preorder node := fun hmem =>
    hmember (hf.memberOf_eq_of_under (hf.under_of_mem_preorder hn hmem).1 hk)
  have ho : n.owner ≠ some x := fun ho =>
    hmember (hf.memberOf_eq_of_under (.owned hn ho .self) hn).symm
  obtain ⟨k', hk', rfl⟩ := hcut.kept hk
  refine ⟨_, hk', ?_, .inl ?_, fun slot => ?_⟩
  · unfold Node.released
    split <;> simp [Node.cut, hx, ho]
  · unfold Node.released
    split <;> rfl
  · have hcut : slot.reference ((k.released (g.model.preorder node) x).cut (g.model.preorder node)
        n.owner node x) = slot.reference (k.released (g.model.preorder node) x) := by
      cases slot <;> rfl
    rw [hcut, Node.reference_released]
    cases ha : k.attached with
    | true => simp [hx]
    | false => simp [hb x k slot hk ha]

/-- A request spares the nodes of the other members. -/
theorem Writes.spares_of_memberOf (hf : Forest g.model) (hb : Bare g.model)
    (hn : g.model.node? node = some n) (hk : g.model.node? x = some k)
    (hmember : g.model.memberOf x ≠ g.model.memberOf node) (h : r.Writes g node m') :
    ∃ k', m'.node? x = some k' ∧ r.Spares g node (r.removed g node) x k k' := by
  have hx : x ≠ node := fun hsame => hmember (congrArg g.model.memberOf hsame)
  have untouched {container : NodeId} {f : Node → Node} {new? : Option Node}
      (hne : x ≠ container) (h : g.model.Rewritten (Node.OnlyAt container f) new? m') :
      ∃ k', m'.node? x = some k' ∧ r.Spares g node [] x k k' := by
    obtain ⟨k', hk', hw⟩ := h.kept hk
    obtain rfl := hw.trans (if_neg hne)
    exact ⟨_, hk', .refl ..⟩
  obtain ⟨action, subject, param⟩ := r
  cases action with
  | setName =>
    obtain ⟨n₀, hn₀, hrenamed⟩ := h
    obtain ⟨k', hk', hw⟩ := hrenamed.kept hk
    refine ⟨k', hk', ?_⟩
    obtain rfl | ⟨rfl | hfollower, name, rfl⟩ := hw
    · exact .refl ..
    · exact absurd rfl hx
    · refine ⟨rfl, .inr ⟨rfl, n₀, hn₀, hfollower⟩, fun slot => ?_⟩
      have hsame : slot.reference { k with name } = slot.reference k := by cases slot <;> rfl
      exact hsame.trans (filter_not_mem_eq (List.forall_mem_nil _)).symm
  | setDescription | setExample | setDeprecation | setMandatory =>
    obtain ⟨_, -, hwritten⟩ := h
    exact untouched hx hwritten
  | assignType =>
    obtain ⟨_, _, -, -, hassigned⟩ := h
    obtain ⟨k', hk', _, -, hw⟩ := hassigned.kept hk
    obtain rfl := hw.trans (if_neg hx)
    exact ⟨_, hk', .refl ..⟩
  | clearType | clearBaseType => exact untouched hx h
  | setBaseType =>
    obtain ⟨_, _, -, -, hwritten⟩ := h
    exact untouched hx hwritten
  | addProperty =>
    obtain ⟨_, container, -, hcontainer, _, _, _, -, -, -, -, hgrown⟩ := h
    refine untouched ?_ hgrown
    rintro rfl
    exact hmember hcontainer
  | addAlias | addEnumValue =>
    obtain ⟨_, _, _, -, -, -, -, hgrown⟩ := h
    exact untouched hx hgrown
  | deleteProperty | deleteAlias | deleteEnumValue =>
    exact spares_of_cutOff hf hb hn hk hmember h

/-- A request spares the nodes of the other libraries. -/
theorem Writes.spares (hf : Forest g.model) (hb : Bare g.model) (hn : g.model.node? node = some n)
    (hk : g.model.node? x = some k) (hlibrary : k.library ≠ n.library) (h : r.Writes g node m') :
    ∃ k', m'.node? x = some k' ∧ r.Spares g node (r.removed g node) x k k' :=
  h.spares_of_memberOf hf hb hn hk fun hmember =>
    hlibrary (library_eq_of_memberOf_eq hf hn hk hmember)

end Request

namespace Session

variable {s s' : Session} {action : Action} {subject : FacadeId} {param : Option Param}
variable {o : Outcome} {node x : NodeId} {n : Node}

/-- The library of a node is read-only. -/
def ReadOnly (s : Session) (n : Node) : Prop :=
  s.graph.versioning.editability s.graph.model n.library = .readOnly

instance (s : Session) (n : Node) : Decidable (s.ReadOnly n) := inferInstanceAs (Decidable (_ = _))

/-- No run whose subject lies in a read-only library passes the check. -/
theorem not_readOnly_of_check (h : s.check action subject param = .ok ⟨⟩)
    (hnode : s.graph.attachedNode subject = .ok node) (hn : s.graph.model.node? node = some n) :
    ¬ s.ReadOnly n := by
  intro hreadOnly
  obtain ⟨manager, hmanager, hcheck⟩ := check_eq_ok_iff.mp h
  have hpolicy := (Manager.check_eq_ok_iff.mp hcheck).1
  obtain ⟨e, _, he, rfl, -⟩ := Graph.attachedNode_eq_ok_iff.mp hnode
  rw [managerFor, Graph.editability_of_entry he hn, hreadOnly] at hmanager
  obtain rfl := Except.ok.inj hmanager
  cases hpolicy

/-- In a session over any snapshot, whatever its history, a run that is performed leaves every node
of a read-only library as it was, apart from its name, if the subject was renamed and the name
follows it, and apart from references to what the run deleted, which are cleared. It deleted the
nodes that are detached since. -/
theorem run_spares_readOnly {snapshot : Snapshot} {loaded : Snapshot.Loaded} {v : Versioning}
    {g : Graph} (hload : snapshot.load = .ok loaded) (hgraph : Graph.ofModel loaded.model v = .ok g)
    (history : List Call) (hrun : run action subject param ((ofGraph g).after history) = .ok o s')
    (hx : ((ofGraph g).after history).graph.model.node? x = some n)
    (hreadOnly : ((ofGraph g).after history).ReadOnly n) :
    ∃ node n', ((ofGraph g).after history).graph.attachedNode subject = .ok node ∧
      s'.graph.model.node? x = some n' ∧
      (⟨action, subject, param⟩ : Request).Spares ((ofGraph g).after history).graph node
        o.detached x n n' ∧
      ∀ p, p ∈ o.detached ↔ ((ofGraph g).after history).graph.model.IsAttached p ∧
        ¬ s'.graph.model.IsAttached p := by
  obtain ⟨_, hgraph', -, -, hsound⟩ := exists_sound_of_load hload v
  obtain rfl := Except.ok.inj (hgraph'.symm.trans hgraph)
  have hs := hsound.after history
  obtain ⟨node, hnode, hwrites, hremoved⟩ := writes_of_run hs.managed hrun
  obtain ⟨-, k, -, -, hk, -⟩ := Graph.attachedNode_eq_ok_iff.mp hnode
  have hsubject :=
    not_readOnly_of_check ((check_eq_ok_iff_run hs.managed).mpr ⟨o, s', hrun⟩) hnode hk
  have hlibrary : n.library ≠ k.library := by
    intro he
    rw [ReadOnly, he] at hreadOnly
    exact hsubject hreadOnly
  obtain ⟨n', hn', hspares⟩ := hwrites.spares hs.managed.forest hs.bare hk hx hlibrary
  exact ⟨node, n', hnode, hn', hremoved ▸ hspares, (publishes_of_run hs.managed hrun).detached.2⟩

end Session

namespace Snapshot

open Session (Call)

/-- The deletion of a property of the object clears the base of what is published, and nothing else
of it. -/
theorem spares_archive :
    ∃ loaded g o s' node n n', archive.load = .ok loaded ∧
      Graph.ofModel loaded.model (.chain none) = .ok g ∧
      let s := (Session.ofGraph g).after [.graph (.facadeFor ⟨4⟩)]
      Session.run .deleteProperty ⟨0⟩ none s = .ok o s' ∧
        s.graph.model.node? ⟨5⟩ = some n ∧ s.ReadOnly n ∧ n.base = some ⟨4⟩ ∧ ⟨4⟩ ∈ o.detached ∧
        s.graph.attachedNode ⟨0⟩ = .ok node ∧ s'.graph.model.node? ⟨5⟩ = some n' ∧
        (⟨.deleteProperty, ⟨0⟩, none⟩ : Request).Spares s.graph node o.detached ⟨5⟩ n n' ∧
        n' = { n with base := none } := by
  obtain ⟨loaded, g, o, s', hload, hgraph, hrun, hp⟩ := exists_run archive (.chain none)
    [.graph (.facadeFor ⟨4⟩)] .deleteProperty ⟨0⟩ none
    (p := fun s o _ => decide (⟨4⟩ ∈ o.detached) &&
      (s.graph.model.node? ⟨5⟩).any fun n => s.ReadOnly n ∧ n.base = some ⟨4⟩ ∧ n.typeRef = none)
    (by decide +kernel)
  simp only [Bool.and_eq_true, Option.any_eq_true, decide_eq_true_eq] at hp
  obtain ⟨hgone, n, hn, hreadOnly, hbase, htype⟩ := hp
  obtain ⟨node, n', hnode, hn', hspares, -⟩ :=
    Session.run_spares_readOnly hload hgraph _ hrun hn hreadOnly
  have hname : n'.name = n.name := hspares.named.resolve_right (by simp)
  have hcleared : n'.base = none := by
    simpa [Usage.Slot.reference, hbase, Option.filter_some, hgone] using hspares.refers .base
  have htype' : n'.typeRef = none := by
    simpa [Usage.Slot.reference, htype] using hspares.refers .type
  refine ⟨loaded, g, o, s', node, n, n', hload, hgraph, hrun, hn, hreadOnly, hbase, hgone, hnode,
    hn', hspares, ?_⟩
  rw [hspares.same, hname, hcleared, htype', ← htype]

/-- A reference in the published library is renamed together with the object in the draft, and the
deletion of a property in the draft takes the type and the base of what is published. -/
theorem archive_altered :
    (∃ loaded g o s', archive.load = .ok loaded ∧
      Graph.ofModel loaded.model (.chain none) = .ok g ∧
      let s := (Session.ofGraph g).after [.graph (.facadeFor ⟨0⟩)]
      Session.run .setName ⟨0⟩ (some (.text "Purchase")) s = .ok o s' ∧
        (∃ n, s.graph.model.node? ⟨9⟩ = some n ∧ s.ReadOnly n ∧ n.name = "OrderRef") ∧
        ∃ n', s'.graph.model.node? ⟨9⟩ = some n' ∧ n'.name = "PurchaseRef") ∧
    ∃ loaded g o s', archive.load = .ok loaded ∧
      Graph.ofModel loaded.model (.chain none) = .ok g ∧
      let s := (Session.ofGraph g).after [.graph (.facadeFor ⟨4⟩)]
      Session.run .deleteProperty ⟨0⟩ none s = .ok o s' ∧
        (∃ n, s.graph.model.node? ⟨5⟩ = some n ∧ s.ReadOnly n ∧ n.base = some ⟨4⟩) ∧
        (∃ n', s'.graph.model.node? ⟨5⟩ = some n' ∧ n'.base = none) ∧
        (∃ k, s.graph.model.node? ⟨10⟩ = some k ∧ s.ReadOnly k ∧ k.typeRef = some ⟨4⟩) ∧
        ∃ k', s'.graph.model.node? ⟨10⟩ = some k' ∧ k'.typeRef = none := by
  constructor
  · obtain ⟨loaded, g, o, s', hload, hgraph, hrun, hp⟩ := exists_run archive (.chain none)
      [.graph (.facadeFor ⟨0⟩)] .setName ⟨0⟩ (some (.text "Purchase"))
      (p := fun s _ s' =>
        ((s.graph.model.node? ⟨9⟩).any fun n => s.ReadOnly n ∧ n.name = "OrderRef") &&
          (s'.graph.model.node? ⟨9⟩).any fun n' => n'.name = "PurchaseRef") (by decide +kernel)
    simp only [Bool.and_eq_true, Option.any_eq_true, decide_eq_true_eq] at hp
    exact ⟨loaded, g, o, s', hload, hgraph, hrun, hp⟩
  · obtain ⟨loaded, g, o, s', hload, hgraph, hrun, hp⟩ := exists_run archive (.chain none)
      [.graph (.facadeFor ⟨4⟩)] .deleteProperty ⟨0⟩ none
      (p := fun s _ s' =>
        ((s.graph.model.node? ⟨5⟩).any fun n => s.ReadOnly n ∧ n.base = some ⟨4⟩) &&
          (((s'.graph.model.node? ⟨5⟩).any fun n' => n'.base = none) &&
          (((s.graph.model.node? ⟨10⟩).any fun k => s.ReadOnly k ∧ k.typeRef = some ⟨4⟩) &&
          (s'.graph.model.node? ⟨10⟩).any fun k' => k'.typeRef = none))) (by decide +kernel)
    simp only [Bool.and_eq_true, Option.any_eq_true, decide_eq_true_eq] at hp
    exact ⟨loaded, g, o, s', hload, hgraph, hrun, hp⟩

end Snapshot

end SchemaEditor
