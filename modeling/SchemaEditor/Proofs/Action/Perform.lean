import SchemaEditor.Action.Handler
import SchemaEditor.Proofs.Graph.Deletion
import SchemaEditor.Proofs.Graph.Growth
import SchemaEditor.Proofs.Text.Trimming

/-!
# Actions that are performed

What an action requires and what its edit demands are stated apart from each other. On a managed
graph the first covers the second: once the precondition holds, the action is performed. `Makes`
names the steps of each action, and `removed` the nodes that it gives as deleted.
-/

namespace SchemaEditor.Request

open SchemaEditor.Graph (Change Evolves Managed Follows GrowsBelow GrowsProperty ClearsBelow)
open Outcome (bind_ok bind_eq_ok_iff)

variable {r : Request} {g g' : Graph} {node : NodeId} {α : Type} {s : String}

/-! ### Parameters and queries -/

theorem query_eq_ok_iff {q : Except Graph.Error α} {a : α} : r.query q = .ok a ↔ q = .ok a := by
  cases q <;> simp [query]

theorem demand_eq_ok_iff {condition : Bool} {reason : Mismatch} :
    r.demand condition reason = .ok ⟨⟩ ↔ condition = true := by
  cases condition <;> simp [demand]

theorem text_eq_ok_iff : r.text = .ok s ↔ r.param = some (.text s) := by
  unfold text
  split <;> simp_all

theorem filledText_eq_ok_iff :
    r.filledText = .ok s ↔ ∃ t, r.param = some (.text t) ∧ Text.trim t = s ∧ s ≠ "" := by
  constructor
  · intro h
    obtain ⟨t, ht, h⟩ := bind_eq_ok_iff.mp h
    obtain ⟨⟨⟩, hne, h⟩ := bind_eq_ok_iff.mp h
    obtain rfl := Except.ok.inj h
    exact ⟨t, text_eq_ok_iff.mp ht, rfl, of_decide_eq_true (demand_eq_ok_iff.mp hne)⟩
  · rintro ⟨t, ht, rfl, hne⟩
    exact bind_eq_ok_iff.mpr ⟨t, text_eq_ok_iff.mpr ht,
      bind_eq_ok_iff.mpr ⟨⟨⟩, demand_eq_ok_iff.mpr (decide_eq_true hne), rfl⟩⟩

theorem flag_eq_ok_iff {b : Bool} : r.flag = .ok b ↔ r.param = some (.flag b) := by
  unfold flag
  cases r.param with
  | none => simp
  | some p => cases p <;> simp

theorem property_eq_ok_iff {kind : PropertyKind} :
    r.property = .ok kind ↔ r.param = some (.property kind) := by
  unfold property
  split <;> simp_all

theorem take_of_ok {argument : Except Action.Error α} {a : α} (h : argument = .ok a) (g : Graph) :
    take argument g = .ok a g := by
  simp only [take, h]

theorem edit_of_ok {e : Graph.Edit α} {a : α} (h : e g = .ok a g') : r.edit e g = .ok a g' := by
  rw [edit, h]

/-! ### What actions do -/

/-- The steps that a request makes, at the node of its subject. -/
def Makes (r : Request) (g : Graph) (node : NodeId) (g₁ : Graph) (c : Change) : Prop :=
  match r.action with
  | .setName => (∃ name, c = .rename node name) ∨ ∃ providers, Follows providers g₁ c
  | .setDescription | .setExample | .setDeprecation => ∃ f, c = .document node f
  | .setMandatory => ∃ mandatory, r.param = some (.flag mandatory) ∧ c = .mandate node mandatory
  | .assignType => (∃ p, c = .point ⟨node, .type⟩ p) ∨ ∃ providers, Follows providers g₁ c
  | .clearType => c = .clear ⟨node, .type⟩
  | .setBaseType => ∃ p, c = .point ⟨node, .base⟩ p
  | .clearBaseType => c = .clear ⟨node, .base⟩
  | .addProperty => ∃ kind container, r.param = some (.property kind) ∧
      g.acceptingContainer? r.subject kind = .ok (some container) ∧
      GrowsProperty container kind g.model.nextId c
  | .addAlias => ∃ name, GrowsBelow node .aliasName name g.model.nextId c
  | .addEnumValue => ∃ name, GrowsBelow node .enumValue name g.model.nextId c
  | .deleteProperty | .deleteAlias | .deleteEnumValue =>
    ClearsBelow (g.model.preorder node) g₁ c ∨ c = .detach node

/-- The nodes that a request deletes. -/
def removed (r : Request) (g : Graph) (node : NodeId) : List NodeId :=
  match r.action with
  | .deleteProperty | .deleteAlias | .deleteEnumValue => g.model.preorder node
  | _ => []

/-- A request is performed, by its steps. -/
def Performed (r : Request) (g : Graph) (node : NodeId) : Prop :=
  ∃ effect g', r.perform g = .ok effect g' ∧ Evolves (r.Makes g node) g g' ∧
    effect.detached = r.removed g node

section cases

variable {subject : FacadeId} {param : Option Param}

theorem performed_setName (hg : Managed g) (hnode : g.attachedNode subject = .ok node)
    (h : (⟨.setName, subject, param⟩ : Request).requirement g = .ok ⟨⟩) :
    Performed ⟨.setName, subject, param⟩ g node := by
  obtain ⟨rule, hrule, h⟩ := bind_eq_ok_iff.mp h
  obtain ⟨text, htext, -⟩ := bind_eq_ok_iff.mp h
  obtain ⟨t, -, rfl, hne⟩ := filledText_eq_ok_iff.mp htext
  obtain ⟨e, n, he, rfl, hn, -⟩ := Graph.attachedNode_eq_ok_iff.mp hnode
  obtain ⟨before, hbefore⟩ := hg.forest.exists_nodeName hn
  have hname : g.name subject = .ok before := by
    rw [Graph.name, Graph.nodeOf_of_entry he]
    exact Graph.ofModelResult_of_ok hbefore
  have hne : Text.trim (Text.trim t) ≠ "" := by rwa [Text.trim_trim]
  obtain ⟨g', hrun, hev⟩ := Graph.setName_eq hg hnode hn (query_eq_ok_iff.mp hrule) hne
  exact ⟨_, g', (bind_ok (edit_of_ok (Graph.ask_of_ok hname))).trans
      ((bind_ok (take_of_ok htext g)).trans (bind_ok (edit_of_ok hrun))),
    hev.mono fun _ _ hc => hc.imp (fun hc => ⟨_, hc⟩) fun hc => ⟨_, hc⟩, rfl⟩

/-- Three actions set documentation, each in its field. -/
theorem document_eq (hnode : g.attachedNode r.subject = .ok node) (htext : r.text = .ok s)
    (field : DocField) :
    ∃ g', (do
        r.edit (Graph.setDocumentation r.subject field (← take r.text))
        return .change .documentationChange : Performance Effect) g =
          .ok (.change .documentationChange) g' ∧
      Evolves (fun _ c => ∃ f, c = .document node f) g g' := by
  obtain ⟨g', hrun, hstep⟩ := Graph.setDocumentation_eq hnode field s
  exact ⟨g', (bind_ok (take_of_ok htext g)).trans (bind_ok (edit_of_ok hrun)),
    .single ⟨_, rfl⟩ hstep⟩

/-- Three actions delete, each nodes of its kind. -/
theorem deletion_eq (hg : Managed g) (hnode : g.attachedNode r.subject = .ok node) :
    ∃ g', (do return .deletion (← r.edit (Graph.delete r.subject)) : Performance Effect) g =
        .ok (.deletion (g.model.preorder node)) g' ∧
      Evolves (fun g₁ c => ClearsBelow (g.model.preorder node) g₁ c ∨ c = .detach node) g g' := by
  obtain ⟨g₁, g', hrun, hev, hstep⟩ := Graph.delete_eq hg hnode
  exact ⟨g', bind_ok (edit_of_ok hrun), (hev.mono fun _ _ => .inl).step (.inr rfl) hstep⟩

theorem performed_setMandatory (hnode : g.attachedNode subject = .ok node)
    (h : (⟨.setMandatory, subject, param⟩ : Request).requirement g = .ok ⟨⟩) :
    Performed ⟨.setMandatory, subject, param⟩ g node := by
  obtain ⟨kind, hkind, h⟩ := bind_eq_ok_iff.mp h
  obtain ⟨⟨⟩, hprop, h⟩ := bind_eq_ok_iff.mp h
  obtain ⟨mandatory, hflag, -⟩ := bind_eq_ok_iff.mp h
  obtain ⟨g', hrun, hstep⟩ := Graph.setMandatory_eq hnode (query_eq_ok_iff.mp hkind)
    (demand_eq_ok_iff.mp hprop) mandatory
  exact ⟨_, g', (bind_ok (take_of_ok hflag g)).trans (bind_ok (edit_of_ok hrun)),
    .single ⟨mandatory, flag_eq_ok_iff.mp hflag, rfl⟩ hstep, rfl⟩

theorem performed_assignType (hg : Managed g) (hnode : g.attachedNode subject = .ok node)
    (h : (⟨.assignType, subject, param⟩ : Request).requirement g = .ok ⟨⟩) :
    Performed ⟨.assignType, subject, param⟩ g node := by
  obtain ⟨kind, -, h⟩ := bind_eq_ok_iff.mp h
  obtain ⟨⟨⟩, -, h⟩ := bind_eq_ok_iff.mp h
  obtain ⟨provider, hprovider, hcan⟩ := bind_eq_ok_iff.mp h
  have hcan := query_eq_ok_iff.mp hcan
  obtain ⟨-, p, hp⟩ := Graph.attached_of_canAssign hcan
  obtain ⟨g', hrun, hev⟩ := Graph.assignType_eq hg hcan hnode hp
  exact ⟨_, g', (bind_ok (take_of_ok hprovider g)).trans (bind_ok (edit_of_ok hrun)),
    hev.mono fun _ _ hc => hc.imp (fun hc => ⟨p, hc⟩) fun hc => ⟨_, hc⟩, rfl⟩

theorem performed_clearType (hg : Managed g) (hnode : g.attachedNode subject = .ok node) :
    Performed ⟨.clearType, subject, param⟩ g node := by
  obtain ⟨g', hrun, hstep⟩ := Graph.clearSlot_eq hg hnode .type
  exact ⟨_, g', bind_ok (edit_of_ok hrun), .single rfl hstep, rfl⟩

theorem performed_setBaseType (hg : Managed g) (hnode : g.attachedNode subject = .ok node)
    (h : (⟨.setBaseType, subject, param⟩ : Request).requirement g = .ok ⟨⟩) :
    Performed ⟨.setBaseType, subject, param⟩ g node := by
  obtain ⟨kind, -, h⟩ := bind_eq_ok_iff.mp h
  obtain ⟨⟨⟩, -, h⟩ := bind_eq_ok_iff.mp h
  obtain ⟨base, hbase, hcan⟩ := bind_eq_ok_iff.mp h
  have hcan := query_eq_ok_iff.mp hcan
  obtain ⟨-, b, hb⟩ := Graph.attached_of_canExtend hcan
  obtain ⟨g', hrun, hstep⟩ := Graph.setBaseType_eq hg hcan hnode hb
  exact ⟨_, g', (bind_ok (take_of_ok hbase g)).trans (bind_ok (edit_of_ok hrun)),
    .single ⟨b, rfl⟩ hstep, rfl⟩

theorem performed_clearBaseType (hg : Managed g) (hnode : g.attachedNode subject = .ok node) :
    Performed ⟨.clearBaseType, subject, param⟩ g node := by
  obtain ⟨g', hrun, hstep⟩ := Graph.clearSlot_eq hg hnode .base
  exact ⟨_, g', bind_ok (edit_of_ok hrun), .single rfl hstep, rfl⟩

theorem performed_addProperty (hg : Managed g)
    (h : (⟨.addProperty, subject, param⟩ : Request).requirement g = .ok ⟨⟩) :
    Performed ⟨.addProperty, subject, param⟩ g node := by
  obtain ⟨_, -, h⟩ := bind_eq_ok_iff.mp h
  obtain ⟨⟨⟩, -, h⟩ := bind_eq_ok_iff.mp h
  obtain ⟨kind, hparam, h⟩ := bind_eq_ok_iff.mp h
  obtain ⟨accepts, haccepts, h⟩ := bind_eq_ok_iff.mp h
  obtain rfl := demand_eq_ok_iff.mp h
  obtain ⟨container?, hc, haccepts⟩ := bind_eq_ok_iff.mp (query_eq_ok_iff.mp haccepts)
  obtain ⟨container, rfl⟩ := Option.isSome_iff_exists.mp (Except.ok.inj haccepts)
  obtain ⟨facade, g', hrun, hev, -⟩ := Graph.addProperty_eq hg hc none
  exact ⟨_, g', (bind_ok (take_of_ok hparam g)).trans (bind_ok (edit_of_ok hrun)),
    hev.mono fun _ _ hgrow => ⟨kind, container, property_eq_ok_iff.mp hparam, hc, hgrow⟩, rfl⟩

/-- A free name is not among the names of the children. -/
theorem not_mem_of_nameIsFree {taken : List String} {name : String}
    (h : r.nameIsFree g name = .ok ⟨⟩) (hnode : g.nodeOf r.subject = .ok node)
    (htaken : g.model.childNames node = .ok taken) : name ∉ taken := by
  obtain ⟨_, hask, h⟩ := bind_eq_ok_iff.mp h
  have hask := query_eq_ok_iff.mp hask
  rw [Graph.hasChildNamed, hnode, Outcome.ok_bind, Graph.ofModelResult_of_ok htaken] at hask
  obtain rfl := Except.ok.inj hask
  simpa using demand_eq_ok_iff.mp h

theorem performed_addAlias (hg : Managed g) (hnode : g.attachedNode subject = .ok node)
    (h : (⟨.addAlias, subject, param⟩ : Request).requirement g = .ok ⟨⟩) :
    Performed ⟨.addAlias, subject, param⟩ g node := by
  obtain ⟨kind, hkind, h⟩ := bind_eq_ok_iff.mp h
  obtain ⟨⟨⟩, hs, h⟩ := bind_eq_ok_iff.mp h
  obtain ⟨text, htext, hfree⟩ := bind_eq_ok_iff.mp h
  obtain ⟨e, n, he, rfl, hn, -⟩ := Graph.attachedNode_eq_ok_iff.mp hnode
  obtain ⟨taken, htaken⟩ := hg.forest.exists_childNames hn
  have hfree := not_mem_of_nameIsFree hfree (Graph.nodeOf_of_entry he) htaken
  obtain ⟨t, -, rfl, hne⟩ := filledText_eq_ok_iff.mp htext
  -- The name is trimmed once more after casing; there is nothing left to trim.
  obtain ⟨htrim, hcased⟩ := Text.trim_upperFirst (Text.trim_trim t) hne
  have halias : Facade.Kind.ofNode? .aliasName = some .aliasName := rfl
  obtain ⟨facade, g', hrun, hev, -⟩ := Graph.addNamedChild_eq hg hnode halias (by rwa [htrim])
    htaken (by rwa [htrim])
  have hadd : Graph.addAlias subject (Text.trim t) g = .ok facade g' := by
    rw [Graph.addAlias_eq_addNamedChild (query_eq_ok_iff.mp hkind) (demand_eq_ok_iff.mp hs),
      Text.trim_trim, hrun]
  exact ⟨_, g', (bind_ok (take_of_ok htext g)).trans (bind_ok (edit_of_ok hadd)),
    hev.mono fun _ _ hgrow => ⟨_, hgrow⟩, rfl⟩

theorem performed_addEnumValue (hg : Managed g) (hnode : g.attachedNode subject = .ok node)
    (h : (⟨.addEnumValue, subject, param⟩ : Request).requirement g = .ok ⟨⟩) :
    Performed ⟨.addEnumValue, subject, param⟩ g node := by
  obtain ⟨kind, hkind, h⟩ := bind_eq_ok_iff.mp h
  obtain ⟨⟨⟩, hs, h⟩ := bind_eq_ok_iff.mp h
  obtain ⟨text, htext, hfree⟩ := bind_eq_ok_iff.mp h
  obtain ⟨e, n, he, rfl, hn, -⟩ := Graph.attachedNode_eq_ok_iff.mp hnode
  obtain ⟨taken, htaken⟩ := hg.forest.exists_childNames hn
  have hfree := not_mem_of_nameIsFree hfree (Graph.nodeOf_of_entry he) htaken
  obtain ⟨t, -, rfl, hne⟩ := filledText_eq_ok_iff.mp htext
  have hliteral : Facade.Kind.ofNode? .enumValue = some .valueLiteral := rfl
  obtain ⟨facade, g', hrun, hev, -⟩ := Graph.addNamedChild_eq hg hnode hliteral
    (by rwa [Text.trim_trim]) htaken (by rwa [Text.trim_trim])
  have hadd : Graph.addEnumValue subject (Text.trim t) g = .ok facade g' := by
    rw [Graph.addEnumValue_eq_addNamedChild (query_eq_ok_iff.mp hkind) (demand_eq_ok_iff.mp hs),
      hrun]
  exact ⟨_, g', (bind_ok (take_of_ok htext g)).trans (bind_ok (edit_of_ok hadd)),
    hev.mono fun _ _ hgrow => ⟨_, hgrow⟩, rfl⟩

end cases

/-- An action whose requirement holds of an attached subject is performed. -/
theorem performed_of_requirement (hg : Managed g) (hnode : g.attachedNode r.subject = .ok node)
    (h : r.requirement g = .ok ⟨⟩) : r.Performed g node := by
  obtain ⟨action, subject, param⟩ := r
  cases action with
  | setName => exact performed_setName hg hnode h
  | setDescription =>
    obtain ⟨text, htext, -⟩ := bind_eq_ok_iff.mp h
    obtain ⟨g', hrun, hev⟩ := document_eq hnode htext .description
    exact ⟨_, g', hrun, hev, rfl⟩
  | setExample =>
    obtain ⟨text, htext, -⟩ := bind_eq_ok_iff.mp h
    obtain ⟨g', hrun, hev⟩ := document_eq hnode htext .sample
    exact ⟨_, g', hrun, hev, rfl⟩
  | setDeprecation =>
    obtain ⟨text, htext, -⟩ := bind_eq_ok_iff.mp h
    obtain ⟨g', hrun, hev⟩ := document_eq hnode htext .deprecation
    exact ⟨_, g', hrun, hev, rfl⟩
  | setMandatory => exact performed_setMandatory hnode h
  | assignType => exact performed_assignType hg hnode h
  | clearType => exact performed_clearType hg hnode
  | setBaseType => exact performed_setBaseType hg hnode h
  | clearBaseType => exact performed_clearBaseType hg hnode
  | addProperty => exact performed_addProperty hg h
  | addAlias => exact performed_addAlias hg hnode h
  | addEnumValue => exact performed_addEnumValue hg hnode h
  | deleteProperty | deleteAlias | deleteEnumValue =>
    obtain ⟨g', hrun, hev⟩ := deletion_eq hg hnode
    exact ⟨_, g', hrun, hev, rfl⟩

/-- The subject of a precondition that holds is attached. -/
theorem attached_of_precondition (h : r.precondition g = .ok ⟨⟩) :
    (∃ node, g.attachedNode r.subject = .ok node) ∧ r.requirement g = .ok ⟨⟩ := by
  obtain ⟨attached, hask, h⟩ := bind_eq_ok_iff.mp h
  obtain ⟨⟨⟩, ha, h⟩ := bind_eq_ok_iff.mp h
  obtain rfl := demand_eq_ok_iff.mp ha
  obtain ⟨n, hcontent, ha⟩ := bind_eq_ok_iff.mp (query_eq_ok_iff.mp hask)
  obtain ⟨node, hnode, hn⟩ := bind_eq_ok_iff.mp hcontent
  obtain ⟨e, he, rfl⟩ := Graph.nodeOf_eq_ok_iff.mp hnode
  have hn := Model.node_eq_ok_iff.mp (Graph.ofModelResult_eq_ok_iff.mp hn)
  exact ⟨⟨e.node, Graph.attachedNode_eq_ok_iff.mpr ⟨e, n, he, rfl, hn, Except.ok.inj ha⟩⟩, h⟩

/-- An action whose precondition holds is performed: no edit is refused after it. -/
theorem performed_of_precondition (hg : Managed g) (h : r.precondition g = .ok ⟨⟩) :
    ∃ node, g.attachedNode r.subject = .ok node ∧ r.Performed g node := by
  obtain ⟨⟨node, hnode⟩, hreq⟩ := attached_of_precondition h
  exact ⟨node, hnode, performed_of_requirement hg hnode hreq⟩

end SchemaEditor.Request
