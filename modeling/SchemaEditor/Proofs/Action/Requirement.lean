import SchemaEditor.Proofs.Action.Perform

/-!
# Subject and parameter

What an action requires falls into two parts: what it asks of its subject, whatever the parameter
is, and what it asks of its parameter once the subject is as it should be. Without a parameter the
second part fails exactly for the actions that take one, and for no other reason than that it is
missing. Neither part ever refuses by policy.
-/

namespace SchemaEditor

namespace Action.Error

/-- Whether a refusal is about the form of the subject or of a parameter that is there. -/
def IsStructural : Action.Error → Prop
  | .mismatch .. | .typeMismatch .. | .graph _ => True
  | .notEditable .. | .notPermitted .. | .missingParameter _ => False

end Action.Error

namespace Request

open Outcome (bind_eq_error_iff bind_eq_ok_iff)

variable {r : Request} {g : Graph} {α β : Type} {P Q : Action.Error → Prop}

/-! ### The two parts -/

/-- What an action asks of an attached subject, whatever its parameter is. -/
def subjectRequirement (r : Request) (g : Graph) : Except Action.Error PUnit := do
  match r.action with
  | .setName =>
    let _ ← r.query (g.givenNameRule r.subject)
  | .setDescription | .setExample | .setDeprecation => return
  | .setMandatory | .deleteProperty =>
    r.demand (← r.query (g.kind r.subject)).isProperty .notAProperty
  | .assignType =>
    r.demand (← r.query (g.kind r.subject)).assignable?.isSome .takesNoType
  | .clearType =>
    r.demand (← r.query (g.kind r.subject)).assignable?.isSome .takesNoType
    let node ← r.query (g.nodeOf r.subject)
    r.demand (g.usage.provider? ⟨node, .type⟩).isSome .hasNoType
  | .setBaseType =>
    r.demand (← r.query (g.kind r.subject)).supportsBase .cannotExtend
  | .clearBaseType =>
    let node ← r.query (g.nodeOf r.subject)
    r.demand (g.usage.provider? ⟨node, .base⟩).isSome .extendsNothing
  | .addProperty =>
    r.demand (← r.query (g.propertyContainer? r.subject)).isSome .noProperties
  | .addAlias =>
    r.demand (← r.query (g.kind r.subject)).supportsAliases .noAliases
  | .deleteAlias =>
    r.demand ((← r.query (g.kind r.subject)) = .aliasName) .notAnAlias
  | .addEnumValue =>
    r.demand (← r.query (g.kind r.subject)).isEnumeration .notAnEnumeration
  | .deleteEnumValue =>
    r.demand ((← r.query (g.kind r.subject)) = .valueLiteral) .notAnEnumerationValue

/-- What an action asks of its parameter, once its subject is as it should be. -/
def parameterRequirement (r : Request) (g : Graph) : Except Action.Error PUnit := do
  match r.action with
  | .setName =>
    let _ ← r.filledText
  | .setDescription | .setExample | .setDeprecation =>
    let _ ← r.text
  | .setMandatory =>
    let _ ← r.flag
  | .assignType => r.query (g.canAssign r.subject (← r.provider))
  | .setBaseType => r.query (g.canExtend r.subject (← r.provider))
  | .addProperty =>
    let kind ← r.property
    r.demand (← r.query (g.acceptsProperty r.subject kind)) (.noPropertiesOf kind)
  | .addAlias => r.nameIsFree g (Text.upperFirst (← r.filledText))
  | .addEnumValue => r.nameIsFree g (← r.filledText)
  | .clearType | .clearBaseType | .deleteProperty | .deleteAlias | .deleteEnumValue => return

/-- An action asks its subject first and its parameter second. -/
theorem requirement_eq (r : Request) (g : Graph) :
    r.requirement g = (do r.subjectRequirement g; r.parameterRequirement g) := by
  obtain ⟨action, subject, param⟩ := r
  cases action <;>
    simp [requirement, subjectRequirement, parameterRequirement, bind_assoc]

/-! ### Reasons for a refusal -/

/-- A check is refused, if at all, for a reason of a certain kind. -/
def RefusedBy (P : Action.Error → Prop) (q : Except Action.Error α) : Prop :=
  ∀ e, q = .error e → P e

namespace RefusedBy

variable {q : Except Action.Error α} {f : α → Except Action.Error β}

theorem mono (h : RefusedBy P q) (hPQ : ∀ e, P e → Q e) : RefusedBy Q q :=
  fun e he => hPQ e (h e he)

theorem ok (a : α) : RefusedBy P (.ok a) := by
  rintro e ⟨⟩

theorem bind (h : RefusedBy P q) (hf : ∀ a, RefusedBy P (f a)) : RefusedBy P (q >>= f) := by
  intro e he
  obtain he | ⟨a, -, he⟩ := bind_eq_error_iff.mp he
  · exact h e he
  · exact hf a e he

end RefusedBy

theorem refusedBy_query (r : Request) (q : Except Graph.Error α) :
    RefusedBy Action.Error.IsStructural (r.query q) := by
  intro e he
  cases q with
  | ok => cases he
  | error cause =>
    cases he
    cases cause <;> trivial

theorem refusedBy_demand (r : Request) (condition : Bool) (reason : Mismatch) :
    RefusedBy Action.Error.IsStructural (r.demand condition reason) := by
  intro e he
  cases condition <;> cases he
  trivial

/-- Whether a refusal is about the form of the subject or of the parameter of an action, which may
be missing. -/
def IsUnmet (action : Action) (e : Action.Error) : Prop :=
  e = .missingParameter action ∨ e.IsStructural

theorem RefusedBy.unmet {q : Except Action.Error α} (h : RefusedBy Action.Error.IsStructural q)
    (action : Action) : RefusedBy (IsUnmet action) q :=
  h.mono fun _ => .inr

theorem refusedBy_text (r : Request) : RefusedBy (IsUnmet r.action) r.text := by
  unfold text
  split
  · exact .ok _
  · rintro _ ⟨⟩
    exact .inl rfl

theorem refusedBy_flag (r : Request) : RefusedBy (IsUnmet r.action) r.flag := by
  unfold flag
  split
  · exact .ok _
  · rintro _ ⟨⟩
    exact .inl rfl

theorem refusedBy_property (r : Request) : RefusedBy (IsUnmet r.action) r.property := by
  unfold property
  split
  · exact .ok _
  · rintro _ ⟨⟩
    exact .inl rfl

theorem refusedBy_provider (r : Request) : RefusedBy (IsUnmet r.action) r.provider := by
  unfold provider
  split
  · exact .ok _
  · rintro _ ⟨⟩
    exact .inl rfl

theorem refusedBy_filledText (r : Request) : RefusedBy (IsUnmet r.action) r.filledText :=
  (refusedBy_text r).bind fun _ =>
    ((refusedBy_demand r _ _).unmet _).bind fun _ => .ok _

theorem refusedBy_nameIsFree (r : Request) (g : Graph) (name : String) :
    RefusedBy Action.Error.IsStructural (r.nameIsFree g name) :=
  (refusedBy_query r _).bind fun _ => refusedBy_demand r _ _

/-- What is asked of the subject is about its form. -/
theorem refusedBy_subjectRequirement (r : Request) (g : Graph) :
    RefusedBy Action.Error.IsStructural (r.subjectRequirement g) := by
  have query_demand {α : Type} (q : Except Graph.Error α) (condition : α → Bool)
      (reason : Mismatch) : RefusedBy Action.Error.IsStructural (do
        r.demand (condition (← r.query q)) reason) :=
    (refusedBy_query r q).bind fun a => refusedBy_demand r (condition a) reason
  unfold subjectRequirement
  cases r.action with
  | setName => exact (refusedBy_query r _).bind fun _ => .ok _
  | setDescription | setExample | setDeprecation => exact .ok _
  | clearType =>
    exact (refusedBy_query r _).bind fun _ => (refusedBy_demand r _ _).bind fun _ =>
      query_demand _ _ _
  | _ => exact query_demand _ _ _

/-- What is asked of the parameter is that it is there, and its form. -/
theorem refusedBy_parameterRequirement (r : Request) (g : Graph) :
    RefusedBy (IsUnmet r.action) (r.parameterRequirement g) := by
  obtain ⟨action, subject, param⟩ := r
  cases action with
  | setName => exact (refusedBy_filledText _).bind fun _ => .ok _
  | setDescription | setExample | setDeprecation => exact (refusedBy_text _).bind fun _ => .ok _
  | setMandatory => exact (refusedBy_flag _).bind fun _ => .ok _
  | assignType | setBaseType =>
    exact (refusedBy_provider _).bind fun _ => (refusedBy_query _ _).unmet _
  | addProperty =>
    exact (refusedBy_property _).bind fun _ =>
      ((refusedBy_query _ _).bind fun _ => refusedBy_demand _ _ _).unmet _
  | addAlias | addEnumValue =>
    exact (refusedBy_filledText _).bind fun _ => (refusedBy_nameIsFree _ _ _).unmet _
  | clearType | clearBaseType | deleteProperty | deleteAlias | deleteEnumValue => exact .ok _

/-! ### Preconditions -/

/-- What is asked before the parameter is looked at: a subject that is attached and as it should
be. -/
def subjectPrecondition (r : Request) (g : Graph) : Except Action.Error PUnit := do
  r.demand (← r.query (g.isAttached r.subject)) .deleted
  r.subjectRequirement g

theorem precondition_eq (r : Request) (g : Graph) :
    r.precondition g = (do r.subjectPrecondition g; r.parameterRequirement g) := by
  simp only [precondition, subjectPrecondition, requirement_eq, bind_assoc]

/-- What is asked first of a facade with an entry is that its node is attached. -/
theorem subjectPrecondition_of_entry {e : Facade.Entry} {n : Node}
    (he : g.facades.entry? r.subject = some e) (hn : g.model.node? e.node = some n) :
    r.subjectPrecondition g = (do r.demand n.attached .deleted; r.subjectRequirement g) := by
  have hattached : g.isAttached r.subject = .ok n.attached := by
    rw [Graph.isAttached, Graph.content_of_entry he hn]
    rfl
  rw [subjectPrecondition, hattached]
  rfl

theorem refusedBy_subjectPrecondition (r : Request) (g : Graph) :
    RefusedBy Action.Error.IsStructural (r.subjectPrecondition g) :=
  (refusedBy_query r _).bind fun _ => (refusedBy_demand r _ _).bind fun _ =>
    refusedBy_subjectRequirement r g

/-- No precondition refuses by policy. -/
theorem refusedBy_precondition (r : Request) (g : Graph) :
    RefusedBy (IsUnmet r.action) (r.precondition g) := by
  rw [precondition_eq]
  exact ((refusedBy_subjectPrecondition r g).unmet _).bind fun _ =>
    refusedBy_parameterRequirement r g

section noParameter

variable {action : Action} {f : FacadeId} {param : Option Param} {e : Action.Error}

/-- What is asked of the subject is asked without a parameter as well. -/
theorem subjectPrecondition_none (action : Action) (f : FacadeId) (param : Option Param)
    (g : Graph) : (⟨action, f, param⟩ : Request).subjectPrecondition g =
      (⟨action, f, none⟩ : Request).subjectPrecondition g := by
  cases action <;> rfl

/-- Without a parameter, exactly the actions that take one are refused, because it is missing. -/
theorem parameterRequirement_none (action : Action) (f : FacadeId) (g : Graph) :
    (⟨action, f, none⟩ : Request).parameterRequirement g =
      if action.profile.param = .nothing then .ok ⟨⟩ else .error (.missingParameter action) := by
  cases action <;> rfl

/-- What is refused without a parameter for another reason than this one is refused with every
parameter, for the same reason. -/
theorem precondition_of_refused_none
    (h : (⟨action, f, none⟩ : Request).precondition g = .error e)
    (hne : e ≠ .missingParameter action) (param : Option Param) :
    (⟨action, f, param⟩ : Request).precondition g = .error e := by
  rw [precondition_eq] at h
  obtain h | ⟨⟨⟩, -, h⟩ := bind_eq_error_iff.mp h
  · rw [precondition_eq, subjectPrecondition_none, h]
    rfl
  · rw [parameterRequirement_none] at h
    split at h
    · cases h
    · exact absurd (Except.error.inj h).symm hne

/-- What is only refused because the parameter is missing has the subject that it asks for. -/
theorem subjectPrecondition_of_missing
    (h : (⟨action, f, none⟩ : Request).precondition g = .error (.missingParameter action)) :
    (⟨action, f, none⟩ : Request).subjectPrecondition g = .ok ⟨⟩ := by
  rw [precondition_eq] at h
  obtain h | ⟨⟨⟩, hsubject, -⟩ := bind_eq_error_iff.mp h
  · exact (refusedBy_subjectPrecondition _ _ _ h).elim
  · exact hsubject

end noParameter

end Request

end SchemaEditor
