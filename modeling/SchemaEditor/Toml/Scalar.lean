import SchemaEditor.Text.Double
import SchemaEditor.Text.Hexadecimal
import SchemaEditor.Time.Timestamp
import SchemaEditor.Toml.Value

/-!
# Plain scalars

Truth values, integers, floats and moments are runs of letters, digits and a few signs. Nothing
that may follow one of them continues the run, so the longest run is taken and then classified as
a whole. A date and a time may also be parted by one blank.
-/

namespace SchemaEditor.Toml.Scalar

/-- The characters of plain scalars. -/
def isScalarChar (c : Char) : Bool :=
  c.isAlphanum || c == '_' || c == '+' || c == '-' || c == '.' || c == ':'

/-- A run of digits without the underscores between them; `none` if an underscore does not stand
between two digits, or another character is no digit. -/
def ungrouped? (isDigit : Char → Bool) : List Char → Option (List Char)
  | [] => none
  | [c] => if isDigit c then some [c] else none
  | c :: '_' :: cs => if isDigit c then (ungrouped? isDigit cs).map (c :: ·) else none
  | c :: cs => if isDigit c then (ungrouped? isDigit cs).map (c :: ·) else none

/-- Whether there is a minus sign, and what follows the sign if there is one. -/
def signed : List Char → Bool × List Char
  | '-' :: cs => (true, cs)
  | '+' :: cs => (false, cs)
  | cs => (false, cs)

/-! ### Integers -/

/-- The digits of a decimal number, which begins with zero only if it has no other digit. -/
def decimal? (cs : List Char) : Option (List Char) :=
  match ungrouped? Char.isDigit cs with
  | some ('0' :: _ :: _) => none
  | ds => ds

/-- A number in base 16, 8 or 2. -/
def based? (base : Nat) (cs : List Char) : Option Int :=
  match ungrouped? (Text.Hexadecimal.isDigitBelow base) cs with
  | some ds => (Text.Hexadecimal.value? base ds).map Int.ofNat
  | none => none

/-- An integer of any size. -/
def unbounded? : List Char → Option Int
  | '0' :: 'x' :: cs => based? 16 cs
  | '0' :: 'o' :: cs => based? 8 cs
  | '0' :: 'b' :: cs => based? 2 cs
  | cs =>
    let (negative, cs) := signed cs
    (decimal? cs).map fun ds =>
      let n : Int := Text.Decimal.value ds
      if negative then -n else n

/-- An integer. -/
def integer? (cs : List Char) : Option Int :=
  match unbounded? cs with
  | some n => if isIntegerRange n then some n else none
  | none => none

/-! ### Floats -/

/-- Whether a character marks an exponent. -/
def isExponentMark (c : Char) : Bool := c == 'e' || c == 'E'

/-- The value of an exponent after its mark, zero if there is no mark. -/
def exponent? : List Char → Option Int
  | [] => some 0
  | _ :: cs =>
    let (negative, cs) := signed cs
    (ungrouped? Char.isDigit cs).map fun ds =>
      let n : Int := Text.Decimal.value ds
      if negative then -n else n

/-- The digits of a fraction after its point, none if there is no point. -/
def fraction? : List Char → Option (List Char)
  | [] => some []
  | _ :: cs => ungrouped? Char.isDigit cs

/-- Whether a run spells a float. A positive one must not be beyond all doubles. -/
def isFloat (cs : List Char) : Bool :=
  let (negative, body) := signed cs
  let mantissa := body.takeWhile fun c => !isExponentMark c
  let whole := mantissa.takeWhile (· != '.')
  if body = ['i', 'n', 'f'] ∨ body = ['n', 'a', 'n'] then true
  else if whole = body then false
  else
    match decimal? whole, fraction? (mantissa.drop whole.length),
        exponent? (body.drop mantissa.length) with
    | some ws, some fs, some e => negative || Text.inDoubleRange (ws ++ fs) (e - fs.length)
    | _, _, _ => false

/-! ### Moments -/

/-- A number of exactly `width` digits, and what follows it. -/
def fixed? (width : Nat) (cs : List Char) : Option (Nat × List Char) :=
  if width ≤ cs.length ∧ (cs.take width).all Char.isDigit then
    some (Text.Decimal.value (cs.take width), cs.drop width)
  else none

/-- What follows a character that has to be there. -/
def after? (c : Char) : List Char → Option (List Char)
  | d :: cs => if c = d then some cs else none
  | [] => none

/-- What follows a date. -/
def afterDate? (cs : List Char) : Option (List Char) := do
  let (year, cs) ← fixed? 4 cs
  let (month, cs) ← fixed? 2 (← after? '-' cs)
  let (day, cs) ← fixed? 2 (← after? '-' cs)
  if 1 ≤ month ∧ month ≤ 12 ∧ 1 ≤ day ∧ day ≤ Timestamp.daysOfMonth year month then some cs
  else none

/-- What follows an hour and a minute. -/
def afterMinute? (cs : List Char) : Option (List Char) := do
  let (hour, cs) ← fixed? 2 cs
  let (minute, cs) ← fixed? 2 (← after? ':' cs)
  if hour ≤ 23 ∧ minute ≤ 59 then some cs else none

/-- What follows a time of day, down to a fraction of a second. -/
def afterTime? (cs : List Char) : Option (List Char) := do
  let cs ← after? ':' (← afterMinute? cs)
  let (second, cs) ← fixed? 2 cs
  if 60 < second then none
  else
    match cs with
    | '.' :: fraction =>
      if fraction.head?.any Char.isDigit then some (fraction.dropWhile Char.isDigit) else none
    | cs => some cs

/-- Whether the rest of a moment is nothing or an offset from universal time. -/
def isOffset : List Char → Bool
  | [] | ['Z'] | ['z'] => true
  | '+' :: cs | '-' :: cs => afterMinute? cs == some []
  | _ => false

/-- Whether a run spells a date. -/
def isDate (cs : List Char) : Bool := afterDate? cs == some []

/-- Whether a run spells a moment. -/
def isMoment (cs : List Char) : Bool :=
  match afterDate? cs with
  | some [] => true
  | some (mark :: cs) =>
    (mark == 'T' || mark == 't' || mark == ' ') && (afterTime? cs).any isOffset
  | none => afterTime? cs == some []

/-! ### Runs -/

/-- The value that a run spells. -/
def ofRun? (cs : List Char) : Option Toml :=
  if cs = ['t', 'r', 'u', 'e'] then some (.bool true)
  else if cs = ['f', 'a', 'l', 's', 'e'] then some (.bool false)
  else
    match integer? cs with
    | some n => some (.int n)
    | none =>
      if isFloat cs then some (.float (String.ofList cs))
      else if isMoment cs then some (.moment (String.ofList cs))
      else none

/-- How many characters at the beginning of a text belong to a scalar. -/
def runLength (cs : List Char) : Nat :=
  let run := cs.takeWhile isScalarChar
  match cs.drop run.length with
  | ' ' :: c :: rest =>
    if isDate run && c.isDigit then
      run.length + 1 + ((c :: rest).takeWhile isScalarChar).length
    else run.length
  | _ => run.length

/-- A plain scalar, and what follows it. -/
def read? (cs : List Char) : Option (Toml × List Char) :=
  let length := runLength cs
  (ofRun? (cs.take length)).map fun v => (v, cs.drop length)

end SchemaEditor.Toml.Scalar
