import SchemaEditor.Proofs.Graph.Deletion
import SchemaEditor.Proofs.Graph.Growth
import SchemaEditor.Proofs.Model.Building

/-!
# Sequences of calls

`Call` lists what may be asked of a graph beyond queries, and `after` is the graph after a sequence
of calls, refused ones included. A graph over a model that was built is managed from the start and
stays so, because each call only makes the steps that a graph may make.
-/

namespace SchemaEditor.Graph

open Model (Forest)

/-- An edit of a graph, or a lookup that may hand out facades. -/
inductive Call where
  | facadeFor (node : NodeId)
  | members (library : LibraryId)
  | owningMember (id : FacadeId)
  | children (id : FacadeId)
  | inheritedChildren (id : FacadeId)
  | assignedType (user : FacadeId)
  | baseType (member : FacadeId)
  | whereUsed (provider : FacadeId)
  | setName (id : FacadeId) (name : String)
  | setDocumentation (id : FacadeId) (field : DocField) (text : String)
  | setMandatory (id : FacadeId) (mandatory : Bool)
  | addProperty (id : FacadeId) (kind : PropertyKind) (name : Option String)
  | addAlias (id : FacadeId) (name : String)
  | addEnumValue (id : FacadeId) (literal : String)
  | delete (id : FacadeId)
  | assignType (user provider : FacadeId)
  | unassignType (user : FacadeId)
  | setBaseType (member base : FacadeId)
  | clearBaseType (member : FacadeId)

/-- The graph that a call leaves, whether it is refused or not. -/
def Call.apply (g : Graph) : Call → Graph
  | .facadeFor node => left (Graph.facadeFor node) g
  | .members library => left (Graph.members library) g
  | .owningMember id => left (Graph.owningMember id) g
  | .children id => left (Graph.children id) g
  | .inheritedChildren id => left (Graph.inheritedChildren id) g
  | .assignedType user => left (Graph.assignedType? user) g
  | .baseType member => left (Graph.baseType? member) g
  | .whereUsed provider => left (Graph.whereUsed provider) g
  | .setName id name => left (Graph.setName id name) g
  | .setDocumentation id field text => left (Graph.setDocumentation id field text) g
  | .setMandatory id mandatory => left (Graph.setMandatory id mandatory) g
  | .addProperty id kind name => left (Graph.addProperty id kind name) g
  | .addAlias id name => left (Graph.addAlias id name) g
  | .addEnumValue id literal => left (Graph.addEnumValue id literal) g
  | .delete id => left (Graph.delete id) g
  | .assignType user provider => left (Graph.assignType user provider) g
  | .unassignType user => left (Graph.unassignType user) g
  | .setBaseType member base => left (Graph.setBaseType member base) g
  | .clearBaseType member => left (Graph.clearBaseType member) g

/-- Whether a call only looks something up. -/
def Call.IsLookup : Call → Prop
  | .facadeFor _ | .members _ | .owningMember _ | .children _ | .inheritedChildren _
  | .assignedType _ | .baseType _ | .whereUsed _ => True
  | _ => False

/-- A graph after a sequence of calls. -/
def after (g : Graph) (calls : List Call) : Graph := calls.foldl Call.apply g

variable {g : Graph} {m : Model}

/-- Lookups only hand out facades. -/
theorem Call.evolves_of_isLookup (hg : Managed g) {c : Call} (hc : c.IsLookup) :
    Evolves IsRegister g (c.apply g) := by
  cases c with
  | facadeFor node => exact facadeFor_leads node g hg
  | members library => exact members_leads library g hg
  | owningMember id => exact owningMember_leads id g hg
  | children id => exact children_leads id g hg
  | inheritedChildren id => exact inheritedChildren_leads id g hg
  | assignedType user => exact slotFacade?_leads user .type g hg
  | baseType member => exact slotFacade?_leads member .base g hg
  | whereUsed provider => exact whereUsed_leads provider g hg
  | _ => exact hc.elim

theorem Call.model_of_isLookup (hg : Managed g) {c : Call} (hc : c.IsLookup) :
    (c.apply g).model = g.model :=
  (evolves_of_isLookup hg hc).model_eq

/-- Whether a call may give nodes other names or types. -/
def Call.IsNaming : Call → Prop
  | .setName _ _ | .assignType _ _ => True
  | _ => False

/-- Whether a call may detach nodes. -/
def Call.IsDelete : Call → Prop
  | .delete _ => True
  | _ => False

/-- The calls that neither name nor delete leave names, types and marks as they are, except that
types are cleared. -/
theorem Call.evolves_of_others (hg : Managed g) {c : Call} (hc : ¬ c.IsNaming)
    (hd : ¬ c.IsDelete) : Evolves (Lossless Steady) g (c.apply g) := by
  have lookup (hc : c.IsLookup) : Evolves (Lossless Steady) g (c.apply g) :=
    (evolves_of_isLookup hg hc).mono fun _ _ => IsRegister.lossless
  cases c with
  | setName | assignType => exact absurd trivial hc
  | delete => exact absurd trivial hd
  | setDocumentation id field text => exact (setDocumentation_atomic g id field text).left
  | setMandatory id mandatory => exact (setMandatory_atomic g id mandatory).left
  | addProperty id kind name => exact (addProperty_atomic hg id kind name).left
  | addAlias id name => exact (addAlias_atomic hg id name).left
  | addEnumValue id literal => exact (addEnumValue_atomic hg id literal).left
  | unassignType user => exact (clearSlot_atomic hg user .type).left
  | setBaseType member base => exact (setBaseType_atomic hg member base).left
  | clearBaseType member => exact (clearSlot_atomic hg member .base).left
  | _ => exact lookup trivial

/-- All calls but two leave names and types as they are, except that types are cleared. -/
theorem Call.evolves_of_not_isNaming (hg : Managed g) {c : Call} (hc : ¬ c.IsNaming) :
    Evolves Steady g (c.apply g) := by
  have others (hd : ¬ c.IsDelete) : Evolves Steady g (c.apply g) :=
    (evolves_of_others hg hc hd).mono fun _ _ => And.left
  cases c with
  | delete id => exact (delete_atomic hg id).left
  | _ => exact others id

/-- All calls but one leave every node attached that is so. -/
theorem Call.evolves_of_not_isDelete (hg : Managed g) {c : Call} (hd : ¬ c.IsDelete) :
    Evolves (Lossless Admitted) g (c.apply g) := by
  have others (hc : ¬ c.IsNaming) : Evolves (Lossless Admitted) g (c.apply g) :=
    (evolves_of_others hg hc hd).mono fun _ _ h => ⟨h.1.1, h.2⟩
  cases c with
  | setName id name => exact (setName_atomic hg id name).left
  | assignType user provider => exact (assignType_atomic hg user provider).left
  | _ => exact others id

/-- Whatever is asked of a managed graph, it makes admitted steps or stays as it is. -/
theorem Call.evolves (hg : Managed g) (c : Call) : Evolves Admitted g (c.apply g) := by
  have lossless (hd : ¬ c.IsDelete) : Evolves Admitted g (c.apply g) :=
    (evolves_of_not_isDelete hg hd).mono fun _ _ => And.left
  cases c with
  | delete id => exact (delete_atomic hg id).left.mono fun _ _ => And.left
  | _ => exact lossless id

/-- A sequence of calls is a sequence of steps. -/
theorem evolves_after (hg : Managed g) (calls : List Call) :
    Evolves Admitted g (g.after calls) := by
  induction calls generalizing g with
  | nil => exact .refl
  | cons c calls ih =>
    have hev := c.evolves hg
    exact hev.trans (ih (hev.managed hg))

/-- There is a graph over every forest, and it is managed. -/
theorem exists_ofModel (hf : Forest m) (v : Versioning) :
    ∃ x, ofModel m v = .ok ⟨m, .empty, x, v⟩ ∧ Managed ⟨m, .empty, x, v⟩ := by
  obtain ⟨x, hseed, hx⟩ := Usage.Index.exists_seed m
  exact ⟨x, by rw [ofModel, hseed]; rfl, hf, hx, .empty _⟩

end SchemaEditor.Graph
