import SchemaEditor.Facade.Kind
import SchemaEditor.Id
import SchemaEditor.Text.Blank
import SchemaEditor.Versioning

/-!
# Actions

The fifteen editing actions, what each of them is called, which parameter it takes, and which class
of change it makes. The class may depend on the parameter: making a property optional is an
addition, and adding a property of a required kind is structural.
-/

namespace SchemaEditor

/-- The parameter that an action takes. -/
inductive ParamKind where
  | nothing
  | text
  | flag
  | property
  | provider
  deriving DecidableEq

namespace ParamKind

/-- The name of a kind of parameter. -/
def name : ParamKind → String
  | .nothing => "none"
  | .text => "text"
  | .flag => "flag"
  | .property => "property"
  | .provider => "provider"

/-- A kind of parameter in words. -/
def description : ParamKind → String
  | .nothing => "no parameter"
  | .text => "text"
  | .flag => "true or false"
  | .property => "a property kind"
  | .provider => "a type provider"

end ParamKind

/-- A parameter of an action. -/
inductive Param where
  | text (s : String)
  | flag (b : Bool)
  | property (kind : PropertyKind)
  | provider (facade : FacadeId)
  deriving DecidableEq

/-- The kind of a parameter. -/
def Param.kind : Param → ParamKind
  | .text _ => .text
  | .flag _ => .flag
  | .property _ => .property
  | .provider _ => .provider

/-- An editing action. -/
inductive Action where
  | setName
  | setDescription
  | setExample
  | setDeprecation
  | setMandatory
  | assignType
  | clearType
  | setBaseType
  | clearBaseType
  | addProperty
  | deleteProperty
  | addAlias
  | deleteAlias
  | addEnumValue
  | deleteEnumValue
  deriving DecidableEq

/-- What is fixed about an action. -/
structure ActionProfile where
  /-- The name of the action on the command line. -/
  name : String
  label : String
  /-- The class of change that the action makes when its parameter does not decide. -/
  change : ChangeClass
  param : ParamKind

namespace Action

/-- All actions, in their order. -/
def all : List Action :=
  [.setName, .setDescription, .setExample, .setDeprecation, .setMandatory, .assignType, .clearType,
    .setBaseType, .clearBaseType, .addProperty, .deleteProperty, .addAlias, .deleteAlias,
    .addEnumValue, .deleteEnumValue]

/-- What is fixed about an action. -/
def profile : Action → ActionProfile
  | .setName => ⟨"set-name", "Rename", .structural, .text⟩
  | .setDescription => ⟨"set-description", "Set Description", .documentation, .text⟩
  | .setExample => ⟨"set-example", "Set Example", .documentation, .text⟩
  | .setDeprecation => ⟨"set-deprecation", "Set Deprecation", .documentation, .text⟩
  | .setMandatory => ⟨"set-mandatory", "Set Mandatory", .structural, .flag⟩
  | .assignType => ⟨"assign-type", "Assign Type", .structural, .provider⟩
  | .clearType => ⟨"clear-type", "Clear Type", .structural, .nothing⟩
  | .setBaseType => ⟨"set-base-type", "Extend", .structural, .provider⟩
  | .clearBaseType => ⟨"clear-base-type", "Remove Extension", .structural, .nothing⟩
  | .addProperty => ⟨"add-property", "Add Property", .addition, .property⟩
  | .deleteProperty => ⟨"delete-property", "Delete Property", .structural, .nothing⟩
  | .addAlias => ⟨"add-alias", "Add Alias", .addition, .text⟩
  | .deleteAlias => ⟨"delete-alias", "Delete Alias", .structural, .nothing⟩
  | .addEnumValue => ⟨"add-enum-value", "Add Value", .addition, .text⟩
  | .deleteEnumValue => ⟨"delete-enum-value", "Delete Value", .structural, .nothing⟩

/-- The name of an action. -/
def name (a : Action) : String := a.profile.name

/-- The action with a name. -/
def ofName? (s : String) : Option Action := all.find? (·.name == s)

/-- The class of change that an action makes with a parameter. -/
def changeClass (a : Action) (p : Option Param) : ChangeClass :=
  match a, p with
  | .setMandatory, some (.flag false) => .addition
  | .addProperty, some (.property kind) =>
    if kind.profile.required then .structural else a.profile.change
  | _, _ => a.profile.change

@[simp] theorem ofName?_name (a : Action) : ofName? a.name = some a := by
  cases a <;> decide

end Action

/-- Why a text names no action or parameter. -/
inductive ArgumentError where
  | unknownAction (text : String)
  | unknownPropertyKind (text : String)
  | invalidFlag (text : String)
  deriving DecidableEq

/-- The kind of a refusal in one word. -/
def ArgumentError.name : ArgumentError → String
  | .unknownAction _ => "UnknownAction"
  | .unknownPropertyKind _ => "UnknownPropertyKind"
  | .invalidFlag _ => "InvalidFlag"

/-- The wording of a refusal. -/
def ArgumentError.message : ArgumentError → String
  | .unknownAction text => "unknown action '" ++ text ++ "'"
  | .unknownPropertyKind text => "unknown property kind '" ++ text ++ "'"
  | .invalidFlag text => "expected true or false, got '" ++ text ++ "'"

/-- Reads the name of an action. -/
def Action.parse (s : String) : Except ArgumentError Action :=
  match Action.ofName? s with
  | some a => .ok a
  | none => .error (.unknownAction s)

/-- A text without blanks around it, in lower-case ASCII letters. -/
def foldedWord (s : String) : String :=
  String.ofList ((Text.trimChars s.toList).map Char.toLower)

/-- Reads a kind of property; hyphens stand for underscores, and `id` for the id attribute. -/
def PropertyKind.parse (s : String) : Except ArgumentError PropertyKind :=
  let word := String.ofList ((foldedWord s).toList.map fun c => if c = '-' then '_' else c)
  match PropertyKind.ofName? (if word = "id" then PropertyKind.idAttribute.name else word) with
  | some kind => .ok kind
  | none => .error (.unknownPropertyKind s)

/-- Reads a truth value. -/
def Param.parseFlag (s : String) : Except ArgumentError Bool :=
  let word := foldedWord s
  if word ∈ ["true", "yes", "1"] then .ok true
  else if word ∈ ["false", "no", "0"] then .ok false
  else .error (.invalidFlag s)

end SchemaEditor
