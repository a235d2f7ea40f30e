import SchemaEditor.Text.Decimal

/-!
# JSON values

A JSON text as a tree. Objects keep their fields in the order of the text and may repeat a key;
numbers keep their spelling. `ill` stands for a part that is correctly written but denotes no
value, so that a reader which skips the part need not care and any other reader refuses it.
-/

namespace SchemaEditor

/-- A JSON value. -/
inductive Json where
  | null
  | bool (b : Bool)
  /-- A number as it is spelled. -/
  | num (spelling : String)
  | str (s : String)
  | arr (items : List Json)
  | obj (fields : List (String × Json))
  /-- A text with half of a surrogate pair, a number beyond all doubles, an object with such a text
  as a key, or an array or object that is nested too deeply. -/
  | ill

namespace Json

/-- The number `n`. -/
def nat (n : Nat) : Json := .num (Text.Decimal.ofNat n)

/-- An optional value, `null` when absent. -/
def ofOption {α : Type} (encode : α → Json) : Option α → Json
  | none => .null
  | some a => encode a

/-- A list of values. -/
def ofList {α : Type} (encode : α → Json) (as : List α) : Json := .arr (as.map encode)

mutual

/-- Whether no part of a value is `ill`. -/
def sound : Json → Bool
  | .ill => false
  | .arr items => soundItems items
  | .obj fields => soundFields fields
  | _ => true

/-- Whether no part of any of the items is `ill`. -/
def soundItems : List Json → Bool
  | [] => true
  | j :: js => sound j && soundItems js

/-- Whether no part of any of the fields is `ill`. -/
def soundFields : List (String × Json) → Bool
  | [] => true
  | (_, j) :: fs => sound j && soundFields fs

end

end Json

end SchemaEditor
