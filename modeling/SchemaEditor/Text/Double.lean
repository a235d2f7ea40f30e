import SchemaEditor.Text.Decimal

/-!
# The range of doubles

Whether a decimal number rounds to a finite double, decided in exact arithmetic: the numbers from
`2 ^ 1024 - 2 ^ 970` on round to infinity. Natural numbers round to 53 significant bits, which
leaves the smaller ones as they are (`nearestDouble_of_lt`).
-/

namespace SchemaEditor.Text

/-- The least natural number that rounds to infinity. -/
def infiniteDouble : Nat := Nat.pow 2 1024 - Nat.pow 2 970

/-- The natural number with at most 53 significant bits that is nearest to `n`; of two, the one
whose last bit is zero. -/
def nearestDouble (n : Nat) : Nat :=
  let unit := Nat.pow 2 (n.log2 - 52)
  let low := n / unit
  let rest := n % unit
  if unit < 2 * rest ∨ (unit = 2 * rest ∧ low % 2 = 1) then (low + 1) * unit else low * unit

/-- Whether `digits * 10 ^ exponent` rounds to a double that is not infinite. -/
def inDoubleRange (digits : List Char) (exponent : Int) : Bool :=
  let m := Decimal.value digits
  let size := (Decimal.digits m).length + exponent
  if m == 0 || size ≤ 308 then true
  else if size > 309 then false
  else if 0 ≤ exponent then m * Nat.pow 10 exponent.toNat < infiniteDouble
  else m < infiniteDouble * Nat.pow 10 (-exponent).toNat

/-- A number with at most 53 significant bits is its own nearest double. -/
theorem nearestDouble_of_lt {n : Nat} (h : n < Nat.pow 2 53) : nearestDouble n = n := by
  have h52 : n.log2 - 52 = 0 := by
    rcases Nat.eq_zero_or_pos n with rfl | hn
    · simp
    · have := (Nat.log2_lt (Nat.ne_of_gt hn)).2 h
      omega
  simp [nearestDouble, h52, Nat.mod_one]

end SchemaEditor.Text
