import SchemaEditor.Text.Double

/-!
# Numbers in a JSON text

The grammar of numbers after RFC 8259, and the size that a number may have. The size is judged by
the leading digits that fit into 64 bits and the power of ten that belongs to them, each rounded to
a double: their product has to round to a finite double. `takeDigits_lt` says that the leading
digits do fit.
-/

namespace SchemaEditor.Json

/-- A fraction or nothing: its digits and what follows; `none` for a point without digits. -/
def fraction? : List Char → Option (List Char × List Char)
  | '.' :: cs =>
    match cs.takeWhile Char.isDigit with
    | [] => none
    | ds => some (ds, cs.dropWhile Char.isDigit)
  | cs => some ([], cs)

/-- The sign of an exponent, true when negative, and what follows. -/
def exponentSign : List Char → Bool × List Char
  | '+' :: cs => (false, cs)
  | '-' :: cs => (true, cs)
  | cs => (false, cs)

/-- An exponent or nothing: its value and what follows; `none` for a mark without digits. -/
def exponent? : List Char → Option (Int × List Char)
  | c :: cs =>
    if c = 'e' ∨ c = 'E' then
      let (negative, cs) := exponentSign cs
      match cs.takeWhile Char.isDigit with
      | [] => none
      | ds =>
        let n : Int := Text.Decimal.value ds
        some (if negative then -n else n, cs.dropWhile Char.isDigit)
    else some (0, c :: cs)
  | [] => some (0, [])

/-- The digits before the point: one zero, or digits that do not begin with zero. -/
def whole? (cs : List Char) : Option (List Char × List Char) :=
  match cs.takeWhile Char.isDigit with
  | [] => none
  | '0' :: _ :: _ => none
  | ds => some (ds, cs.dropWhile Char.isDigit)

/-- Appends digits to a significand as long as it fits into 64 bits: the significand, and the
number of digits that are left. -/
def takeDigits (significand : Nat) : List Char → Nat × Nat
  | [] => (significand, 0)
  | d :: ds =>
    let longer := significand * 10 + (d.toNat - 48)
    if longer < UInt64.size then takeDigits longer ds else (significand, ds.length + 1)

/-- Whether a significand that fits into 64 bits stays finite when it is scaled by a power of ten,
both rounded to doubles before they are multiplied. -/
def isFinite (significand : Nat) (exponent : Int) : Bool :=
  significand = 0 ∨ exponent < 0 ∨
    (exponent ≤ 308 ∧
      Text.nearestDouble significand * Text.nearestDouble (Nat.pow 10 exponent.toNat) <
        Text.infiniteDouble)

/-- Whether a number is small enough to be read. Digits before the point that the significand
cannot take in count as powers of ten; such digits after the point do not count. -/
def inRange (whole fraction : List Char) (exponent : Int) : Bool :=
  let (significand, above) := takeDigits 0 whole
  let (significand, below) := takeDigits significand fraction
  isFinite significand (above + below - fraction.length + exponent)

/-- A number without its sign, whether it is small enough to be read, and what follows it. -/
def magnitude? (cs : List Char) : Option (Bool × List Char) := do
  let (whole, cs) ← whole? cs
  let (fraction, cs) ← fraction? cs
  let (exponent, cs) ← exponent? cs
  return (inRange whole fraction exponent, cs)

/-- The digits that a significand takes in leave it below `UInt64.size`. -/
theorem takeDigits_lt {significand : Nat} (h : significand < UInt64.size) (ds : List Char) :
    (takeDigits significand ds).1 < UInt64.size := by
  induction ds generalizing significand with
  | nil => exact h
  | cons d ds ih =>
    rw [takeDigits]
    split
    · exact ih (by assumption)
    · exact h

end SchemaEditor.Json
