import Mathlib.Data.Fintype.EquivFin
import SchemaEditor.Proofs.Action.Policy
import SchemaEditor.Proofs.Action.Requirement

/-!
# Parameters that fit

Whether some parameter fits can be told without one. An action that takes a text, a truth value or a
kind of property, and whose subject is as it should be, accepts one: names are never used up, and a
plain attribute goes into every container. Such a parameter need not change the class of the change,
so that it passes wherever the action does without one. Only for the flag the class may get milder.
-/

namespace SchemaEditor

open Outcome (bind_eq_ok_iff)

/-! ### Names that are free -/

/-- A text of one letter, in the form that aliases and values have. -/
theorem Text.trim_replicate (n : Nat) :
    trim (String.ofList (List.replicate n 'A')) = String.ofList (List.replicate n 'A') := by
  have hletter : ∀ d ∈ List.replicate n 'A', isBlank d = false :=
    fun d hd => by rw [List.eq_of_mem_replicate hd]; decide
  have hend : dropBlankEnd (List.replicate n 'A') = List.replicate n 'A' := by
    simpa [dropBlankEnd] using dropBlankEnd_append hletter []
  rw [trim, trimChars, String.toList_ofList]
  cases n with
  | zero => rfl
  | succ n =>
    rw [List.replicate_succ, List.dropWhile_cons_of_neg (by decide), ← List.replicate_succ, hend]

theorem Text.upperFirst_replicate (n : Nat) :
    upperFirst (String.ofList (List.replicate n 'A')) = String.ofList (List.replicate n 'A') := by
  have hupper : upper 'A' = ['A'] := by decide +kernel
  rw [upperFirst, mapFirst, String.toList_ofList]
  cases n with
  | zero => rfl
  | succ n => simp only [List.replicate_succ, hupper, List.singleton_append]

/-- Names are never used up: there is one of a length that no name has. -/
theorem Naming.exists_not_mem (taken : List String) :
    ∃ name, Text.trim name = name ∧ Text.upperFirst name = name ∧ name ≠ "" ∧ name ∉ taken := by
  obtain ⟨n, hn⟩ := Infinite.exists_notMem_finset (0 :: taken.map String.length).toFinset
  have hlength : (String.ofList (List.replicate n 'A')).length = n := by simp
  rw [List.mem_toFinset, List.mem_cons, not_or] at hn
  refine ⟨String.ofList (List.replicate n 'A'), Text.trim_replicate n, Text.upperFirst_replicate n,
    fun h => hn.1 ?_, fun hmem => hn.2 ?_⟩
  · rw [← hlength, h, String.length_empty]
  · exact hlength ▸ List.mem_map_of_mem hmem

/-! ### Containers of properties -/

namespace Graph

variable {g : Graph} {id : FacadeId} {node container : NodeId}

/-- What holds the properties of an attached facade is attached: it is its node or a child of it. -/
theorem attached_of_propertyContainer? (hf : Model.Forest g.model)
    (hnode : g.attachedNode id = .ok node) (h : g.propertyContainer? id = .ok (some container)) :
    ∃ n, g.model.node? container = some n ∧ n.attached = true := by
  obtain ⟨e, n, he, rfl, hn, ha⟩ := attachedNode_eq_ok_iff.mp hnode
  have hself (h : some e.node = some container) :
      ∃ n, g.model.node? container = some n ∧ n.attached = true := by
    obtain rfl := Option.some.inj h
    exact ⟨n, hn, ha⟩
  have hfacet {role : FacetRole} (h : g.model.facet? e.node role = some container) :
      ∃ n, g.model.node? container = some n ∧ n.attached = true := by
    rw [Model.facet?, hn, Option.bind_some] at h
    obtain ⟨k, hk, -, hattached⟩ := hf.owned hn (List.mem_of_find?_eq_some h)
    exact ⟨k, hk, hattached ha⟩
  rw [propertyContainer?, nodeOf_of_entry he, Outcome.ok_bind, kind_of_entry he,
    Outcome.ok_bind] at h
  split at h
  · exact hself (Except.ok.inj h)
  · exact hself (Except.ok.inj h)
  · exact hself (Except.ok.inj h)
  · exact hfacet (Except.ok.inj h)
  · exact hfacet (Except.ok.inj h)
  · exact hfacet (Except.ok.inj h)
  · cases h

/-- A plain attribute goes into every container. -/
theorem acceptsProperty_plainAttribute (hf : Model.Forest g.model)
    (hnode : g.attachedNode id = .ok node) (h : g.propertyContainer? id = .ok (some container)) :
    g.acceptsProperty id .plainAttribute = .ok true := by
  obtain ⟨n, hn, ha⟩ := attached_of_propertyContainer? hf hnode h
  rw [acceptsProperty, acceptingContainer?, h]
  simp only [Outcome.ok_bind, ofModelResult_of_ok (Model.node_of_node? hn), ha, takesProperty,
    decide_true, Bool.or_true, Bool.true_or, and_self, if_true]
  rfl

end Graph

/-! ### Parameters -/

namespace Request

open SchemaEditor.Graph (Managed)

variable {r : Request} {g : Graph} {node : NodeId} {name : String} {taken : List String}

/-- A name that no child has is free. -/
theorem nameIsFree_of_not_mem (hnode : g.nodeOf r.subject = .ok node)
    (htaken : g.model.childNames node = .ok taken) (hname : name ∉ taken) :
    r.nameIsFree g name = .ok ⟨⟩ := by
  have hchild : g.hasChildNamed r.subject name = .ok false := by
    rw [Graph.hasChildNamed, hnode, Outcome.ok_bind, Graph.ofModelResult_of_ok htaken]
    simpa [pure, Except.pure] using hname
  exact bind_eq_ok_iff.mpr ⟨false, query_eq_ok_iff.mpr hchild, rfl⟩

/-- What an attached subject as it should be lacks is a parameter that fits. It may be chosen
without a change of class. -/
theorem exists_fitting {action : Action} {f : FacadeId} (hg : Managed g)
    (hnode : g.attachedNode f = .ok node)
    (hparam : action.profile.param ∈ [.text, .flag, .property])
    (h : (⟨action, f, none⟩ : Request).subjectRequirement g = .ok ⟨⟩) :
    ∃ p : Param, p.kind = action.profile.param ∧
      action.changeClass (some p) = action.changeClass none ∧
      (⟨action, f, some p⟩ : Request).parameterRequirement g = .ok ⟨⟩ := by
  obtain ⟨e, n, he, rfl, hn, -⟩ := Graph.attachedNode_eq_ok_iff.mp hnode
  obtain ⟨taken, htaken⟩ := hg.forest.exists_childNames hn
  obtain ⟨name, htrim, hupper, hne, hfree⟩ := Naming.exists_not_mem taken
  have hfilled (a : Action) : (⟨a, f, some (.text name)⟩ : Request).filledText = .ok name :=
    filledText_eq_ok_iff.mpr ⟨name, rfl, htrim, hne⟩
  have hname (a : Action) :
      (⟨a, f, some (.text name)⟩ : Request).nameIsFree g name = .ok ⟨⟩ :=
    nameIsFree_of_not_mem (Graph.nodeOf_of_entry he) htaken hfree
  cases action with
  | setName =>
    exact ⟨.text name, rfl, rfl, bind_eq_ok_iff.mpr ⟨name, hfilled _, rfl⟩⟩
  | setDescription | setExample | setDeprecation => exact ⟨.text name, rfl, rfl, rfl⟩
  | setMandatory => exact ⟨.flag true, rfl, rfl, rfl⟩
  | addProperty =>
    obtain ⟨container?, hcontainer, hsome⟩ := bind_eq_ok_iff.mp h
    obtain ⟨container, rfl⟩ := Option.isSome_iff_exists.mp (demand_eq_ok_iff.mp hsome)
    have haccepts := Graph.acceptsProperty_plainAttribute hg.forest hnode
      (query_eq_ok_iff.mp hcontainer)
    refine ⟨.property .plainAttribute, rfl, rfl, ?_⟩
    exact bind_eq_ok_iff.mpr ⟨.plainAttribute, rfl,
      bind_eq_ok_iff.mpr ⟨true, query_eq_ok_iff.mpr haccepts, rfl⟩⟩
  | addAlias =>
    refine ⟨.text name, rfl, rfl, bind_eq_ok_iff.mpr ⟨name, hfilled _, ?_⟩⟩
    rw [hupper]
    exact hname _
  | addEnumValue =>
    exact ⟨.text name, rfl, rfl, bind_eq_ok_iff.mpr ⟨name, hfilled _, hname _⟩⟩
  | assignType | setBaseType => exact absurd hparam (by decide)
  | clearType | clearBaseType | deleteProperty | deleteAlias | deleteEnumValue =>
    exact absurd hparam (by decide)

end Request

/-! ### Classes -/

namespace Action

open Policy (Admits)

variable {action : Action} {param : Option Param} {additions new : Bool} {editability : Editability}

/-- A parameter makes the change of an action no milder, except for the flag that makes a property
optional. -/
theorem changeClass_cases (action : Action) (param : Option Param) :
    action.changeClass param = action.changeClass none ∨
      action.changeClass param = .structural ∨
      action = .setMandatory ∧ param = some (.flag false) := by
  unfold changeClass
  split
  · exact .inr (.inr ⟨rfl, rfl⟩)
  · split
    · exact .inr (.inl rfl)
    · exact .inl rfl
  · exact .inl (by cases action <;> rfl)

/-- What passes with a parameter passes without it, except for the flag that makes a property of a
member carried forward optional. -/
theorem admits_none (h : Admits additions editability new (action.changeClass param)) :
    Admits additions editability new (action.changeClass none) ∨
      action = .setMandatory ∧ param = some (.flag false) ∧ editability = .minorOnly ∧
        new = false ∧ additions = true := by
  obtain hsame | hstructural | ⟨rfl, rfl⟩ := changeClass_cases action param
  · exact .inl (hsame ▸ h)
  · rw [hstructural] at h
    exact .inl (Policy.admits_of_isEditable h.isEditable)
  · cases editability <;> cases new <;> cases additions <;>
      simp_all [Admits, Policy.permits, changeClass, profile]

end Action

end SchemaEditor
