import SchemaEditor.Text.Blank
import SchemaEditor.Text.Casing
import SchemaEditor.Text.Decimal

/-!
# Naming rules

How a name given by a caller is brought into the form of its kind, how a reference is named after
the type it refers to, and how a fresh name is found beside names that are taken.
-/

namespace SchemaEditor.Naming

/-- What a kind of object does to the names it is given. -/
inductive Rule where
  /-- The trimmed name as it is. -/
  | verbatim
  /-- The first character in upper case. -/
  | upperFirst
  /-- The first character in lower case. -/
  | lowerFirst
  /-- The form of an indicator: see `indicatorName`. -/
  | indicator
  /-- The name comes from the assigned type; a given name stands only while there is none. -/
  | fromType
  deriving DecidableEq

/-- The ending of every indicator name. -/
def indicatorEnding : List Char := ['I', 'n', 'd']

/-- The ending of every reference name. -/
def referenceEnding : List Char := ['R', 'e', 'f']

/-- A text with `ending` at its end, added only where it is missing. -/
def withEnding (ending : List Char) (s : String) : String :=
  if ending.isSuffixOf s.toList then s else s ++ String.ofList ending

/-- Drops a leading `is` before an upper-case character, so that `island` stays whole. -/
def dropIs : List Char → List Char
  | 'i' :: 's' :: c :: cs =>
    if Text.isUppercase c then c :: cs else 'i' :: 's' :: c :: cs
  | cs => cs

/-- The name of an indicator: trimmed, without a leading `is`, the first character in lower case,
ending in `Ind`. An empty name becomes `newInd`. -/
def indicatorName (name : String) : String :=
  let stem := Text.lowerFirst (String.ofList (dropIs (Text.trimChars name.toList)))
  withEnding indicatorEnding (if stem = "" then "new" else stem)

/-- The form of a name under a rule. -/
def Rule.apply (rule : Rule) (name : String) : String :=
  let name := Text.trim name
  match rule with
  | .verbatim | .fromType => name
  | .upperFirst => Text.upperFirst name
  | .lowerFirst => Text.lowerFirst name
  | .indicator => indicatorName name

/-- The name of a reference to a type: it ends in `Ref`, and begins in lower case for an attribute
and in upper case for an element. -/
def referenceName (typeName : String) (asAttribute : Bool) : String :=
  withEnding referenceEnding
    (if asAttribute then Text.lowerFirst typeName else Text.upperFirst typeName)

/-- `base` with a number behind it. -/
def numbered (base : String) (n : Nat) : String := base ++ Text.Decimal.ofNat n

/-- `base` if it is free, else `base` with the least number from 1 on that makes it free. Among
the first `taken.length` numbers one always does, since the numbered names differ from each other
and from `base`, which is itself taken. -/
def uniqueName (base : String) (taken : List String) : String :=
  if base ∈ taken then
    (((List.range taken.length).map fun i => numbered base (i + 1)).find? (· ∉ taken)).getD base
  else base

end SchemaEditor.Naming
