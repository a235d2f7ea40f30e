import SchemaEditor.Proofs.Action.Effect
import SchemaEditor.Proofs.Graph.Rewriting

/-!
# What actions write

`Request.Writes` gives the complete write set of each action. Most actions write one field of their
subject. A new name and a new type also change names that follow; an addition is one more node at
the end of the arena, listed by its owner; and a deletion cuts off what is below the subject,
together with the references that lead out of it and into it. `Writes.cases` reads off what may
have become of a single node.
-/

namespace SchemaEditor

/-- The node is a property, and its kind behaves in a certain way. -/
def Node.IsPropertyWith (p : PropertyProfile → Prop) (n : Node) : Prop :=
  ∃ kind, n.kind = .property kind ∧ p kind.profile

instance (p : PropertyProfile → Prop) [DecidablePred p] (n : Node) :
    Decidable (n.IsPropertyWith p) :=
  decidable_of_iff
    (∃ kind ∈ (Facade.Kind.ofNode? n.kind).bind Facade.Kind.property?, p kind.profile) <| by
      unfold Node.IsPropertyWith
      cases n.kind <;> simp [Facade.Kind.ofNode?, Facade.Kind.property?]

namespace Graph

/-- Nothing was written but one node, by `f`. -/
def WrittenAt (g : Graph) (node : NodeId) (f : Node → Node) (m' : Model) : Prop :=
  g.model.Rewritten (Node.OnlyAt node f) none m'

/-- A node was cut off with all that is below it, and the references out of there and into it were
cleared. -/
def CutOff (g : Graph) (node : NodeId) (m' : Model) : Prop :=
  ∃ n below, g.model.node? node = some n ∧ g.model.subtree node = .ok below ∧
    g.model.Rewritten (fun x k k' => k' = (k.released below x).cut below n.owner node x) none m'

end Graph

namespace Request

open SchemaEditor.Graph (Managed)
open Outcome (bind_eq_ok_iff run_bind_eq_ok_iff)

variable {r : Request} {g g' : Graph} {node : NodeId} {effect : Effect}

/-- The text of a request was written to one field of a node. -/
def Documents (r : Request) (g : Graph) (node : NodeId) (field : DocField) (m' : Model) : Prop :=
  ∃ text, r.param = some (.text text) ∧
    g.WrittenAt node (fun n => { n with doc := field.set text n.doc }) m'

/-- What a request that was performed at a node has made of a model. What is not said here is as it
was before. -/
def Writes (r : Request) (g : Graph) (node : NodeId) (m' : Model) : Prop :=
  match r.action with
  | .setName => ∃ n, g.model.node? node = some n ∧
      g.model.Rewritten (Node.Renamed fun x => x = node ∨ g.Follower (g.namedBy node n) x) none m'
  | .setDescription => r.Documents g node .description m'
  | .setExample => r.Documents g node .sample m'
  | .setDeprecation => r.Documents g node .deprecation m'
  | .setMandatory => ∃ mandatory, r.param = some (.flag mandatory) ∧
      g.WrittenAt node (fun n => { n with mandatory }) m'
  | .assignType => ∃ provider p, r.param = some (.provider provider) ∧ g.nodeOf provider = .ok p ∧
      g.model.Rewritten (fun x n n' => ∃ name, (name = n.name ∨ g.NameFollows node p) ∧
        Node.OnlyAt node (fun n => { n with typeRef := some p, name }) x n n') none m'
  | .clearType => g.WrittenAt node (fun n => { n with typeRef := none }) m'
  | .setBaseType => ∃ base b, r.param = some (.provider base) ∧ g.nodeOf base = .ok b ∧
      g.WrittenAt node (fun n => { n with base := some b }) m'
  | .clearBaseType => g.WrittenAt node (fun n => { n with base := none }) m'
  | .addProperty => ∃ kind container, r.param = some (.property kind) ∧
      g.model.memberOf container = g.model.memberOf node ∧
      g.GrownBelow container (.property kind) kind.profile.required m'
  | .addAlias => g.GrownBelow node .aliasName false m'
  | .addEnumValue => g.GrownBelow node .enumValue false m'
  | .deleteProperty | .deleteAlias | .deleteEnumValue => g.CutOff node m'

theorem provider_eq_ok_iff {facade : FacadeId} :
    r.provider = .ok facade ↔ r.param = some (.provider facade) := by
  unfold provider
  split <;> simp_all

/-! ### Actions on one field -/

section cases

variable {subject : FacadeId} {param : Option Param}

theorem documents_of_perform {field : DocField} (hnode : g.attachedNode r.subject = .ok node)
    (h : (do
      r.edit (Graph.setDocumentation r.subject field (← take r.text))
      return .change .documentationChange : Performance Effect) g = .ok effect g') :
    r.Documents g node field g'.model := by
  obtain ⟨text, _, htext, hset, -⟩ := edit_of_perform h
  obtain ⟨_, hrun, hstep⟩ := Graph.setDocumentation_eq hnode field text
  obtain ⟨-, rfl⟩ := EStateM.Result.ok.inj (hrun.symm.trans hset)
  exact ⟨text, text_eq_ok_iff.mp htext, hstep.rewritten trivial⟩

/-- A run that gives a name gives the one of its request. -/
theorem renamed_of_perform
    (h : (⟨.setName, subject, param⟩ : Request).perform g = .ok effect g') :
    ∃ name after, param = some (.text name) ∧
      Graph.setName subject (Text.trim name) g = .ok after g' := by
  obtain ⟨_, _, hask, h⟩ := run_bind_eq_ok_iff.mp h
  obtain ⟨-, rfl⟩ := Graph.ask_eq_ok_iff.mp (edit_eq_ok_iff.mp hask)
  obtain ⟨_, after, htext, hset, -⟩ := edit_of_perform h
  obtain ⟨name, hparam, rfl, -⟩ := filledText_eq_ok_iff.mp htext
  exact ⟨name, after, hparam, hset⟩

theorem writes_setName (hg : Managed g) (hnode : g.attachedNode subject = .ok node)
    (h : (⟨.setName, subject, param⟩ : Request).perform g = .ok effect g') :
    (⟨.setName, subject, param⟩ : Request).Writes g node g'.model := by
  obtain ⟨-, n, -, -, hn, -⟩ := Graph.attachedNode_eq_ok_iff.mp hnode
  obtain ⟨_, _, -, hset⟩ := renamed_of_perform h
  exact ⟨n, hn, Graph.setName_rewritten hg hnode hn hset⟩

theorem writes_setMandatory (hnode : g.attachedNode subject = .ok node)
    (hreq : (⟨.setMandatory, subject, param⟩ : Request).requirement g = .ok ⟨⟩)
    (h : (⟨.setMandatory, subject, param⟩ : Request).perform g = .ok effect g') :
    (⟨.setMandatory, subject, param⟩ : Request).Writes g node g'.model := by
  obtain ⟨kind, hkind, hreq⟩ := bind_eq_ok_iff.mp hreq
  obtain ⟨⟨⟩, hproperty, -⟩ := bind_eq_ok_iff.mp hreq
  obtain ⟨mandatory, _, hflag, hset, -⟩ := edit_of_perform h
  obtain ⟨_, hrun, hstep⟩ := Graph.setMandatory_eq hnode (query_eq_ok_iff.mp hkind)
    (demand_eq_ok_iff.mp hproperty) mandatory
  obtain ⟨-, rfl⟩ := EStateM.Result.ok.inj (hrun.symm.trans hset)
  exact ⟨mandatory, flag_eq_ok_iff.mp hflag, hstep.rewritten trivial⟩

/-- Two actions clear a reference, each in its slot. -/
theorem written_of_clearSlot {slot : Usage.Slot} {previous : Option NodeId} (hg : Managed g)
    (hnode : g.attachedNode subject = .ok node)
    (h : Graph.clearSlot subject slot g = .ok previous g') :
    g.WrittenAt node (slot.put none) g'.model := by
  obtain ⟨_, hrun, hstep⟩ := Graph.clearSlot_eq hg hnode slot
  obtain ⟨-, rfl⟩ := EStateM.Result.ok.inj (hrun.symm.trans h)
  exact hstep.rewritten trivial

/-! ### Types and bases -/

theorem writes_assignType (hg : Managed g) (hnode : g.attachedNode subject = .ok node)
    (hreq : (⟨.assignType, subject, param⟩ : Request).requirement g = .ok ⟨⟩)
    (h : (⟨.assignType, subject, param⟩ : Request).perform g = .ok effect g') :
    (⟨.assignType, subject, param⟩ : Request).Writes g node g'.model := by
  obtain ⟨_, -, hreq⟩ := bind_eq_ok_iff.mp hreq
  obtain ⟨⟨⟩, -, hreq⟩ := bind_eq_ok_iff.mp hreq
  obtain ⟨provider, hprovider, hcan⟩ := bind_eq_ok_iff.mp hreq
  obtain ⟨-, p, hp⟩ := Graph.attached_of_canAssign (query_eq_ok_iff.mp hcan)
  obtain ⟨_, _, htaken, hassign, -⟩ := edit_of_perform h
  obtain rfl := Except.ok.inj (hprovider.symm.trans htaken)
  exact ⟨provider, p, provider_eq_ok_iff.mp hprovider, Graph.nodeOf_of_attachedNode hp,
    Graph.assignType_rewritten hg hnode hp hassign⟩

theorem writes_setBaseType (hg : Managed g) (hnode : g.attachedNode subject = .ok node)
    (hreq : (⟨.setBaseType, subject, param⟩ : Request).requirement g = .ok ⟨⟩)
    (h : (⟨.setBaseType, subject, param⟩ : Request).perform g = .ok effect g') :
    (⟨.setBaseType, subject, param⟩ : Request).Writes g node g'.model := by
  obtain ⟨_, -, hreq⟩ := bind_eq_ok_iff.mp hreq
  obtain ⟨⟨⟩, -, hreq⟩ := bind_eq_ok_iff.mp hreq
  obtain ⟨base, hbase, hcan⟩ := bind_eq_ok_iff.mp hreq
  have hcan := query_eq_ok_iff.mp hcan
  obtain ⟨-, b, hb⟩ := Graph.attached_of_canExtend hcan
  obtain ⟨_, _, htaken, hset, -⟩ := edit_of_perform h
  obtain rfl := Except.ok.inj (hbase.symm.trans htaken)
  obtain ⟨_, hrun, hstep⟩ := Graph.setBaseType_eq hg hcan hnode hb
  obtain ⟨-, rfl⟩ := EStateM.Result.ok.inj (hrun.symm.trans hset)
  exact ⟨base, b, provider_eq_ok_iff.mp hbase, Graph.nodeOf_of_attachedNode hb,
    hstep.rewritten trivial⟩

/-! ### Parts -/

/-- A property is added to the container that takes it, without a name of its own. -/
theorem added_of_perform (hreq : (⟨.addProperty, subject, param⟩ : Request).requirement g = .ok ⟨⟩)
    (h : (⟨.addProperty, subject, param⟩ : Request).perform g = .ok effect g') :
    ∃ kind container facade, param = some (.property kind) ∧
      g.acceptingContainer? subject kind = .ok (some container) ∧
      Graph.addProperty subject kind none g = .ok facade g' := by
  obtain ⟨_, -, hreq⟩ := bind_eq_ok_iff.mp hreq
  obtain ⟨⟨⟩, -, hreq⟩ := bind_eq_ok_iff.mp hreq
  obtain ⟨kind, hkind, hreq⟩ := bind_eq_ok_iff.mp hreq
  obtain ⟨accepts, haccepts, hreq⟩ := bind_eq_ok_iff.mp hreq
  obtain rfl := demand_eq_ok_iff.mp hreq
  obtain ⟨container?, hc, haccepts⟩ := bind_eq_ok_iff.mp (query_eq_ok_iff.mp haccepts)
  obtain ⟨container, rfl⟩ := Option.isSome_iff_exists.mp (Except.ok.inj haccepts)
  obtain ⟨_, facade, htaken, hadd, -⟩ := edit_of_perform h
  obtain rfl := Except.ok.inj (hkind.symm.trans htaken)
  exact ⟨kind, container, facade, property_eq_ok_iff.mp hkind, hc, hadd⟩

theorem writes_addProperty (hg : Managed g) (hnode : g.attachedNode subject = .ok node)
    (hreq : (⟨.addProperty, subject, param⟩ : Request).requirement g = .ok ⟨⟩)
    (h : (⟨.addProperty, subject, param⟩ : Request).perform g = .ok effect g') :
    (⟨.addProperty, subject, param⟩ : Request).Writes g node g'.model := by
  obtain ⟨kind, container, facade, hparam, hc, hadd⟩ := added_of_perform hreq h
  have hunder :=
    Graph.under_of_acceptingContainer? hg.forest (Graph.nodeOf_of_attachedNode hnode) hc
  obtain ⟨p, hp, -⟩ := Graph.attached_of_acceptingContainer? hc
  exact ⟨kind, container, hparam, hg.forest.memberOf_eq_of_under hunder hp,
    Graph.addProperty_grown hg hc hadd⟩

theorem cutOff_of_delete {nodes : List NodeId} {n : Node} (hg : Managed g)
    (hnode : g.attachedNode subject = .ok node) (hn : g.model.node? node = some n)
    (ho : n.owner ≠ none) (h : Graph.delete subject g = .ok nodes g') :
    g.CutOff node g'.model :=
  ⟨n, _, hn, hg.forest.subtree_eq hn, Graph.delete_rewritten hg hnode hn ho h⟩

end cases

/-- A request that is performed writes its write set and nothing else. -/
theorem writes_of_perform (hg : Managed g) (hnode : g.attachedNode r.subject = .ok node)
    (hreq : r.requirement g = .ok ⟨⟩) (h : r.perform g = .ok effect g') :
    r.Writes g node g'.model := by
  obtain ⟨action, subject, param⟩ := r
  cases action with
  | setName => exact writes_setName hg hnode h
  | setDescription => exact documents_of_perform hnode h
  | setExample => exact documents_of_perform hnode h
  | setDeprecation => exact documents_of_perform hnode h
  | setMandatory => exact writes_setMandatory hnode hreq h
  | assignType => exact writes_assignType hg hnode hreq h
  | clearType =>
    obtain ⟨_, _, hclear, h⟩ := run_bind_eq_ok_iff.mp h
    obtain ⟨-, rfl⟩ := EStateM.Result.ok.inj h
    exact written_of_clearSlot hg hnode (edit_eq_ok_iff.mp hclear)
  | setBaseType => exact writes_setBaseType hg hnode hreq h
  | clearBaseType =>
    obtain ⟨_, _, hclear, h⟩ := run_bind_eq_ok_iff.mp h
    obtain ⟨-, rfl⟩ := EStateM.Result.ok.inj h
    exact written_of_clearSlot hg hnode (edit_eq_ok_iff.mp hclear)
  | addProperty => exact writes_addProperty hg hnode hreq h
  | addAlias =>
    obtain ⟨kind, hkind, hreq⟩ := bind_eq_ok_iff.mp hreq
    obtain ⟨⟨⟩, hsupports, -⟩ := bind_eq_ok_iff.mp hreq
    obtain ⟨name, _, -, hadd, -⟩ := edit_of_perform h
    rw [Graph.addAlias_eq_addNamedChild (query_eq_ok_iff.mp hkind)
      (demand_eq_ok_iff.mp hsupports)] at hadd
    exact Graph.addNamedChild_grown hg hnode rfl hadd
  | addEnumValue =>
    obtain ⟨kind, hkind, hreq⟩ := bind_eq_ok_iff.mp hreq
    obtain ⟨⟨⟩, henumeration, -⟩ := bind_eq_ok_iff.mp hreq
    obtain ⟨literal, _, -, hadd, -⟩ := edit_of_perform h
    rw [Graph.addEnumValue_eq_addNamedChild (query_eq_ok_iff.mp hkind)
      (demand_eq_ok_iff.mp henumeration)] at hadd
    exact Graph.addNamedChild_grown hg hnode rfl hadd
  | deleteProperty | deleteAlias | deleteEnumValue =>
    obtain ⟨-, n, -, -, hn, -⟩ := Graph.attachedNode_eq_ok_iff.mp hnode
    obtain ⟨_, _, hdelete, h⟩ := run_bind_eq_ok_iff.mp h
    obtain ⟨-, rfl⟩ := EStateM.Result.ok.inj h
    refine cutOff_of_delete hg hnode hn (owned_of_deletion hg hnode hn hreq ?_)
      (edit_eq_ok_iff.mp hdelete)
    simp

/-! ### Single nodes -/

/-- What a request may have made of the name and the flag of a node that was there. -/
structure Leaves (r : Request) (g : Graph) (node x : NodeId) (n n' : Node) : Prop where
  /-- A name is given, or it follows a type. -/
  name : n'.name = n.name ∨ r.action = .setName ∧ x = node ∨ ∃ p, g.NameFollows x p
  mandatory : (r.action = .setMandatory ∧ x = node ∧ r.param = some (.flag n'.mandatory)) ∨
    (r.action = .setMandatory → x ≠ node) ∧ n'.mandatory = n.mandatory

/-- The node that a request has added. -/
def Creates (r : Request) (n : Node) : Prop :=
  match r.action with
  | .addProperty => ∃ kind, r.param = some (.property kind) ∧ n.kind = .property kind ∧
      n.mandatory = kind.profile.required
  | .addAlias => n.kind = .aliasName
  | .addEnumValue => n.kind = .enumValue
  | _ => False

theorem Leaves.of_same {x : NodeId} {n n' : Node} (hname : n'.name = n.name)
    (hmandatory : n'.mandatory = n.mandatory) (h : r.action ≠ .setMandatory) :
    r.Leaves g node x n n' :=
  ⟨.inl hname, .inr ⟨fun ha => absurd ha h, hmandatory⟩⟩

section node

variable {x : NodeId} {n' : Node} {m' : Model}

theorem exists_leaves_of_rewritten {W : NodeId → Node → Node → Prop}
    (h : g.model.Rewritten W none m') (hx : m'.node? x = some n')
    (hW : ∀ {n}, g.model.node? x = some n → W x n n' → r.Leaves g node x n n') :
    ∃ n, g.model.node? x = some n ∧ r.Leaves g node x n n' := by
  obtain ⟨n, hn, hw⟩ | ⟨-, hnew⟩ := h.cases hx
  · exact ⟨n, hn, hW hn hw⟩
  · cases hnew

theorem exists_leaves_of_writtenAt {f : Node → Node} (h : g.WrittenAt node f m')
    (hx : m'.node? x = some n') (hf : ∀ n, (f n).name = n.name ∧ (f n).mandatory = n.mandatory)
    (ha : r.action ≠ .setMandatory) : ∃ n, g.model.node? x = some n ∧ r.Leaves g node x n n' := by
  refine exists_leaves_of_rewritten h hx fun {n} _ hw => ?_
  rw [hw]
  split
  · exact .of_same (hf n).1 (hf n).2 ha
  · exact .of_same rfl rfl ha

/-- Of an addition only the new node has a name and a flag of its own. -/
theorem leaves_or_creates_of_grownBelow {container : NodeId} {kind : NodeKind} {mandatory : Bool}
    (h : g.GrownBelow container kind mandatory m') (hx : m'.node? x = some n')
    (ha : r.action ≠ .setMandatory)
    (hnew : ∀ n : Node, n.kind = kind → n.mandatory = mandatory → r.Creates n) :
    (∃ n, g.model.node? x = some n ∧ r.Leaves g node x n n') ∨
      x = g.model.nextId ∧ r.Creates n' := by
  obtain ⟨p, taken, name, -, -, -, -, hgrown⟩ := h
  obtain ⟨n, hn, rfl⟩ | ⟨hid, hadded⟩ := hgrown.cases hx
  · refine .inl ⟨n, hn, ?_⟩
    split
    · exact .of_same rfl rfl ha
    · exact .of_same rfl rfl ha
  · obtain rfl := Option.some.inj hadded
    exact .inr ⟨hid, hnew _ rfl rfl⟩

/-- After a request every node is one that was there, or the one that was added. -/
theorem Writes.cases (h : r.Writes g node m') (hx : m'.node? x = some n') :
    (∃ n, g.model.node? x = some n ∧ r.Leaves g node x n n') ∨
      x = g.model.nextId ∧ r.Creates n' := by
  obtain ⟨action, subject, param⟩ := r
  cases action with
  | setName =>
    obtain ⟨k, -, hrenamed⟩ := h
    refine .inl (exists_leaves_of_rewritten hrenamed hx fun _ hw => ?_)
    obtain rfl | ⟨hmay, _, rfl⟩ := hw
    · exact .of_same rfl rfl (by simp)
    · refine ⟨.inr (hmay.imp (fun hnode => ⟨rfl, hnode⟩) ?_), .inr ⟨nofun, rfl⟩⟩
      rintro ⟨p, -, -, hfollows⟩
      exact ⟨p, hfollows⟩
  | setMandatory =>
    obtain ⟨mandatory, hparam, hwritten⟩ := h
    refine .inl (exists_leaves_of_rewritten hwritten hx fun _ hw => ?_)
    rw [hw]
    split
    · next hnode => exact ⟨.inl rfl, .inl ⟨rfl, hnode, hparam⟩⟩
    · next hother => exact ⟨.inl rfl, .inr ⟨fun _ => hother, rfl⟩⟩
  | assignType =>
    obtain ⟨_, p, -, -, hassigned⟩ := h
    refine .inl (exists_leaves_of_rewritten hassigned hx fun _ hw => ?_)
    obtain ⟨name, hname, rfl⟩ := hw
    split
    · next hnode =>
      subst hnode
      exact ⟨hname.imp id fun hfollows => .inr ⟨p, hfollows⟩, .inr ⟨nofun, rfl⟩⟩
    · exact .of_same rfl rfl (by simp)
  | setDescription | setExample | setDeprecation =>
    obtain ⟨_, -, hwritten⟩ := h
    exact .inl (exists_leaves_of_writtenAt hwritten hx (fun _ => ⟨rfl, rfl⟩) (by simp))
  | setBaseType =>
    obtain ⟨_, _, -, -, hwritten⟩ := h
    exact .inl (exists_leaves_of_writtenAt hwritten hx (fun _ => ⟨rfl, rfl⟩) (by simp))
  | clearType | clearBaseType =>
    exact .inl (exists_leaves_of_writtenAt h hx (fun _ => ⟨rfl, rfl⟩) (by simp))
  | addProperty =>
    obtain ⟨kind, _, hparam, -, hgrown⟩ := h
    exact leaves_or_creates_of_grownBelow hgrown hx (by simp) fun _ hkind hmandatory =>
      ⟨kind, hparam, hkind, hmandatory⟩
  | addAlias | addEnumValue =>
    exact leaves_or_creates_of_grownBelow h hx (by simp) fun _ hkind _ => hkind
  | deleteProperty | deleteAlias | deleteEnumValue =>
    obtain ⟨_, below, -, -, hcut⟩ := h
    refine .inl (exists_leaves_of_rewritten hcut hx fun {n} _ hw => ?_)
    rw [hw, Node.cut, Node.released]
    split
    · exact .of_same rfl rfl (by simp)
    · exact .of_same rfl rfl (by simp)

end node

end Request

end SchemaEditor
