/-!
# Decimal numerals

Natural numbers written in decimal digits without a sign or leading zeros, and the value of a run
of digits. `value_digits` says that a written number reads back.
-/

namespace SchemaEditor.Text.Decimal

/-- The character of a digit below ten. -/
def digitChar (d : Nat) : Char := Char.ofNat (48 + d)

/-- The digits of `n`, most significant first; `0` has the one digit `0`. -/
def digits (n : Nat) : List Char :=
  if n < 10 then [digitChar n] else digits (n / 10) ++ [digitChar (n % 10)]
termination_by n
decreasing_by omega

/-- The text of `n`. -/
def ofNat (n : Nat) : String := String.ofList (digits n)

/-- The value of a run of digits, read from the left onto the value so far. -/
def valueOnto (acc : Nat) (cs : List Char) : Nat :=
  cs.foldl (fun n c => n * 10 + (c.toNat - 48)) acc

/-- The value of a run of digits. -/
def value (cs : List Char) : Nat := valueOnto 0 cs

/-- The value of a text that has at least one digit and nothing else. -/
def read? (cs : List Char) : Option Nat :=
  if cs ≠ [] ∧ cs.all Char.isDigit then some (value cs) else none

/-- `width` digits of `n`, with zeros in front. -/
def padded (width n : Nat) : String :=
  let ds := digits n
  String.ofList (List.replicate (width - ds.length) '0' ++ ds)

theorem digitChar_isDigit {d : Nat} (h : d < 10) : (digitChar d).isDigit = true := by
  have : ∀ k : Fin 10, (digitChar k).isDigit = true := by decide
  exact this ⟨d, h⟩

theorem digitChar_toNat {d : Nat} (h : d < 10) : (digitChar d).toNat - 48 = d := by
  have : ∀ k : Fin 10, (digitChar k).toNat - 48 = k := by decide
  exact this ⟨d, h⟩

theorem digits_ne_nil (n : Nat) : digits n ≠ [] := by
  rw [digits]; split <;> simp

theorem isDigit_of_mem_digits (n : Nat) : ∀ c ∈ digits n, c.isDigit = true := by
  induction n using digits.induct with
  | case1 n h =>
    rw [digits, if_pos h]
    simpa using digitChar_isDigit h
  | case2 n h ih =>
    rw [digits, if_neg h]
    intro c hc
    rcases List.mem_append.1 hc with hc | hc
    · exact ih c hc
    · rw [List.mem_singleton.1 hc]
      exact digitChar_isDigit (Nat.mod_lt _ (by decide))

@[simp] theorem value_append_singleton (cs : List Char) (c : Char) :
    value (cs ++ [c]) = value cs * 10 + (c.toNat - 48) := by
  simp [value, valueOnto]

@[simp] theorem value_digits (n : Nat) : value (digits n) = n := by
  induction n using digits.induct with
  | case1 n h =>
    rw [digits, if_pos h]
    simpa [value, valueOnto] using digitChar_toNat h
  | case2 n h ih =>
    rw [digits, if_neg h, value_append_singleton, ih, digitChar_toNat (Nat.mod_lt _ (by decide))]
    omega

theorem read?_digits (n : Nat) : read? (digits n) = some n := by
  have h : (digits n).all Char.isDigit = true := List.all_eq_true.2 (isDigit_of_mem_digits n)
  simp [read?, digits_ne_nil, h]

theorem digits_injective {m n : Nat} (h : digits m = digits n) : m = n := by
  rw [← value_digits m, h, value_digits]

end SchemaEditor.Text.Decimal
