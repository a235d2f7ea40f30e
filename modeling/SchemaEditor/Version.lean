import SchemaEditor.Text.Blank
import SchemaEditor.Text.Decimal
import SchemaEditor.Text.Fields

/-!
# Version numbers

A version is written `major.minor.patch`; the last one or two numbers may be missing and are then
zero. Each number is a run of ASCII digits below `2 ^ 32` with an optional plus sign in front.
Versions order by major, then minor, then patch number; `rank` expresses that order in one number.
-/

namespace SchemaEditor

/-- A version number. -/
structure Version where
  major : UInt32
  minor : UInt32
  patch : UInt32
  deriving DecidableEq

namespace Version

/-- A text that is no version number. -/
structure ParseError where
  text : String
  deriving DecidableEq

/-- The wording of a refusal. -/
def ParseError.message (e : ParseError) : String :=
  "invalid version number: " ++ e.text

/-- The first version of a chain. -/
def initial : Version := ⟨1, 0, 0⟩

/-- The digits of a number after its optional sign. -/
def unsigned : List Char → List Char
  | '+' :: cs => cs
  | cs => cs

/-- One number of a version. -/
def number? (cs : List Char) : Option UInt32 :=
  match Text.Decimal.read? (unsigned cs) with
  | some n => if h : n < UInt32.size then some (UInt32.ofNatLT n h) else none
  | none => none

/-- The version written in a text, blanks around it aside. -/
def parse? (s : String) : Option Version :=
  match Text.fields '.' (Text.trimChars s.toList) with
  | [a] => do return ⟨← number? a, 0, 0⟩
  | [a, b] => do return ⟨← number? a, ← number? b, 0⟩
  | [a, b, c] => do return ⟨← number? a, ← number? b, ← number? c⟩
  | _ => none

/-- Reads a version; a refusal carries the text as it was given. -/
def parse (s : String) : Except ParseError Version :=
  match parse? s with
  | some v => .ok v
  | none => .error ⟨s⟩

/-- The text of a version, with all three numbers. -/
def text (v : Version) : String :=
  Text.Decimal.ofNat v.major.toNat ++ "." ++ Text.Decimal.ofNat v.minor.toNat ++ "." ++
    Text.Decimal.ofNat v.patch.toNat

/-- Whether a version is not the first of its major number. -/
def isMinor (v : Version) : Bool := 0 < v.minor || 0 < v.patch

/-- The position of a version among all versions. -/
def rank (v : Version) : Nat :=
  (v.major.toNat * UInt32.size + v.minor.toNat) * UInt32.size + v.patch.toNat

instance : LT Version := ⟨fun a b => a.rank < b.rank⟩

instance (a b : Version) : Decidable (a < b) := inferInstanceAs (Decidable (a.rank < b.rank))

instance : LE Version := ⟨fun a b => a.rank ≤ b.rank⟩

instance (a b : Version) : Decidable (a ≤ b) := inferInstanceAs (Decidable (a.rank ≤ b.rank))

/-- How two versions order. -/
def cmp (a b : Version) : Ordering := compare a.rank b.rank

theorem rank_injective {a b : Version} (h : a.rank = b.rank) : a = b := by
  have ha := a.minor.toNat_lt
  have hb := b.minor.toNat_lt
  have ha' := a.patch.toNat_lt
  have hb' := b.patch.toNat_lt
  simp only [rank, UInt32.size] at h
  cases a; cases b
  simp only [mk.injEq, ← UInt32.toNat_inj] at *
  omega

/-- A version that comes after another one of its major number is not the first of them. -/
theorem isMinor_of_lt {a b : Version} (hmajor : a.major = b.major) (h : a < b) :
    b.isMinor = true := by
  have hrank : a.rank < b.rank := h
  cases hminor : b.isMinor with
  | true => rfl
  | false =>
    simp only [isMinor, Bool.or_eq_false_iff, decide_eq_false_iff_not, UInt32.not_lt,
      UInt32.le_iff_toNat_le, UInt32.toNat_zero] at hminor
    simp only [rank, hmajor, UInt32.size] at hrank
    omega

end Version

end SchemaEditor
