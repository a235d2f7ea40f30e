import SchemaEditor.Text.Decimal

/-!
# Numbers given by users

A natural number in decimal digits, with an optional plus sign in front, below a bound. The refusal
says what is wrong; digits are taken from the left, and the first fault counts.
-/

namespace SchemaEditor.Text

/-- Why a text is no number. -/
inductive NumberFault where
  | empty
  | notADigit
  | tooLarge
  deriving DecidableEq

/-- The wording of a refusal. -/
def NumberFault.message : NumberFault → String
  | .empty => "cannot parse integer from empty string"
  | .notADigit => "invalid digit found in string"
  | .tooLarge => "number too large to fit in target type"

/-- Reads digits onto the value so far. -/
def numberOnto (bound : Nat) (n : Nat) : List Char → Except NumberFault Nat
  | [] => .ok n
  | c :: cs =>
    if c.isDigit then
      let next := n * 10 + (c.toNat - 48)
      if next < bound then numberOnto bound next cs else .error .tooLarge
    else .error .notADigit

/-- A number below `bound`. -/
def number (bound : Nat) (s : String) : Except NumberFault Nat :=
  match s.toList with
  | [] => .error .empty
  | ['+'] => .error .notADigit
  | '+' :: cs => numberOnto bound 0 cs
  | cs => numberOnto bound 0 cs

end SchemaEditor.Text
