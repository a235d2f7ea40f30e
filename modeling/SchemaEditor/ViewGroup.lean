/-!
# View groups

A view group names the panels that share one navigation lock. Its id is not empty and consists of
ASCII letters, digits, `-`, `_` and `.`.
-/

namespace SchemaEditor

/-- Whether a character may stand in the id of a view group. -/
def isViewGroupChar (c : Char) : Bool :=
  c.isAlphanum || c == '-' || c == '_' || c == '.'

/-- The id of a view group. -/
structure ViewGroup where
  text : String
  nonempty : text ≠ ""
  chars : ∀ c ∈ text.toList, isViewGroupChar c = true
  deriving DecidableEq

namespace ViewGroup

/-- Why a text is not the id of a view group. -/
inductive Fault where
  | empty
  /-- The first character that may not stand in an id. -/
  | forbidden (c : Char)
  deriving DecidableEq

/-- The wording of a refusal. -/
def Fault.message : Fault → String
  | .empty => "invalid view group id: view group id cannot be empty"
  | .forbidden c => "invalid view group id: view group id cannot contain '" ++ c.toString ++ "'"

/-- Reads the id of a view group. -/
def parse (s : String) : Except Fault ViewGroup :=
  if h : s = "" then .error .empty
  else
    match hf : s.toList.find? (fun c => !isViewGroupChar c) with
    | some c => .error (.forbidden c)
    | none => .ok ⟨s, h, by simpa using hf⟩

end ViewGroup

end SchemaEditor
