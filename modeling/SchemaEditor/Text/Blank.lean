/-!
# Blank characters

The Unicode property `White_Space`, and cutting blanks off both ends of a text. `trim_trim` says
that one cut is enough.
-/

namespace SchemaEditor.Text

/-- The characters of Unicode's `White_Space`. -/
def isBlank (c : Char) : Bool :=
  let n := c.toNat
  (9 ≤ n && n ≤ 13) || n == 0x20 || n == 0x85 || n == 0xA0 || n == 0x1680 ||
    (0x2000 ≤ n && n ≤ 0x200A) || n == 0x2028 || n == 0x2029 || n == 0x202F || n == 0x205F ||
    n == 0x3000

/-- Drops the blanks at the end of a text. -/
def dropBlankEnd : List Char → List Char
  | [] => []
  | c :: cs =>
    match dropBlankEnd cs with
    | [] => if isBlank c then [] else [c]
    | r => c :: r

/-- The characters of a text without the blanks at its two ends. -/
def trimChars (cs : List Char) : List Char :=
  dropBlankEnd (cs.dropWhile isBlank)

/-- A text without the blanks at its two ends. -/
def trim (s : String) : String :=
  String.ofList (trimChars s.toList)

@[simp] theorem toList_trim (s : String) : (trim s).toList = trimChars s.toList := by
  simp [trim]

theorem dropBlankEnd_idem (cs : List Char) :
    dropBlankEnd (dropBlankEnd cs) = dropBlankEnd cs := by
  induction cs with
  | nil => rfl
  | cons c cs ih =>
    simp only [dropBlankEnd]
    split
    · split
      · rfl
      · next h => simp [dropBlankEnd, h]
    · next h =>
      simp only [dropBlankEnd]
      rw [ih]
      cases hr : dropBlankEnd cs with
      | nil => exact absurd hr h
      | cons => rfl

theorem dropBlankEnd_cons_of_not_blank {c : Char} (h : isBlank c = false) (cs : List Char) :
    dropBlankEnd (c :: cs) = c :: dropBlankEnd cs := by
  simp only [dropBlankEnd]
  split <;> simp_all

theorem trimChars_idem (cs : List Char) : trimChars (trimChars cs) = trimChars cs := by
  have key : ∀ l : List Char, (∀ c ∈ l.head?, isBlank c = false) →
      (dropBlankEnd l).dropWhile isBlank = dropBlankEnd l := by
    intro l hl
    cases l with
    | nil => rfl
    | cons c l =>
      have hc : isBlank c = false := hl c rfl
      rw [dropBlankEnd_cons_of_not_blank hc, List.dropWhile_cons_of_neg (by simp [hc])]
  unfold trimChars
  rw [key, dropBlankEnd_idem]
  intro c hc
  have := List.head?_dropWhile_not isBlank cs
  rw [Option.mem_def.1 hc] at this
  simpa using this

/-- A trimmed text has nothing left to trim. -/
theorem trim_trim (s : String) : trim (trim s) = trim s := by
  simp [trim, trimChars_idem]

end SchemaEditor.Text
