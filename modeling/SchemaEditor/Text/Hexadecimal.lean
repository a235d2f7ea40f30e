/-!
# Hexadecimal digits

The values of digits in either case, and runs of digits in any base up to sixteen.
-/

namespace SchemaEditor.Text.Hexadecimal

/-- The value of a digit. -/
def digitValue? (c : Char) : Option Nat :=
  if c.isDigit then some (c.toNat - 48)
  else if 'a' ≤ c ∧ c ≤ 'f' then some (c.toNat - 87)
  else if 'A' ≤ c ∧ c ≤ 'F' then some (c.toNat - 55)
  else none

/-- Whether a character is a digit below `base`. -/
def isDigitBelow (base : Nat) (c : Char) : Bool := (digitValue? c).any fun d => d < base

/-- The value of a run of digits in a base; `none` if a character is not a digit. -/
def value? (base : Nat) (cs : List Char) : Option Nat :=
  cs.foldlM (fun n c => (digitValue? c).map fun d => n * base + d) 0

/-- The digit of a number below 16, in lower case. -/
def lowerDigit (n : Nat) : Char := if n < 10 then Char.ofNat (48 + n) else Char.ofNat (87 + n)

/-- The digit of a number below 16, in upper case. -/
def upperDigit (n : Nat) : Char := if n < 10 then Char.ofNat (48 + n) else Char.ofNat (55 + n)

end SchemaEditor.Text.Hexadecimal
