import SchemaEditor.Json.Number
import SchemaEditor.Json.Value
import SchemaEditor.Text.Hexadecimal

/-!
# The tokens of a JSON text

Blanks, the four literals, numbers, texts and punctuation after RFC 8259. A text or number that is
correctly spelled but denotes nothing becomes the value `ill`; everything else that the grammar
does not allow ends the reading.
-/

namespace SchemaEditor.Json

/-- A token; a scalar is already a value. -/
inductive Token where
  | openBrace
  | closeBrace
  | openBracket
  | closeBracket
  | colon
  | comma
  | scalar (value : Json)

/-- The blanks between tokens. -/
def isSpace (c : Char) : Bool := c == ' ' || c == '\t' || c == '\n' || c == '\r'

/-- The character of a one-letter escape. -/
def escaped? : Char → Option Char
  | '"' => some '"'
  | '\\' => some '\\'
  | '/' => some '/'
  | 'b' => some '\x08'
  | 'f' => some '\x0c'
  | 'n' => some '\n'
  | 'r' => some '\r'
  | 't' => some '\t'
  | _ => none

/-- A part of a text: a character, or one half of a surrogate pair. -/
inductive TextUnit where
  | char (c : Char)
  | half (code : Nat)

/-- The units of a text up to its closing quote, last first, and what follows the quote. -/
def units? (acc : List TextUnit) : List Char → Option (List TextUnit × List Char)
  | [] => none
  | '"' :: rest => some (acc, rest)
  | '\\' :: 'u' :: a :: b :: c :: d :: rest =>
    match Text.Hexadecimal.value? 16 [a, b, c, d] with
    | none => none
    | some n =>
      if 0xD800 ≤ n ∧ n < 0xE000 then units? (.half n :: acc) rest
      else units? (.char (Char.ofNat n) :: acc) rest
  | '\\' :: e :: rest =>
    match escaped? e with
    | none => none
    | some c => units? (.char c :: acc) rest
  | c :: rest => if c.toNat < 0x20 then none else units? (.char c :: acc) rest

/-- The characters that units spell, or nothing when a half has no partner beside it. The units
come last first, so a low half is met before its high half. -/
def spelled? (acc : List Char) : List TextUnit → Option (List Char)
  | [] => some acc
  | .char c :: rest => spelled? (c :: acc) rest
  | .half low :: .half high :: rest =>
    if 0xDC00 ≤ low ∧ high < 0xDC00 then
      spelled? (Char.ofNat (0x10000 + (high - 0xD800) * 0x400 + (low - 0xDC00)) :: acc) rest
    else none
  | .half _ :: _ => none

/-- The text after an opening quote, and what follows its closing quote. -/
def text? (cs : List Char) : Option (Json × List Char) :=
  match units? [] cs with
  | none => none
  | some (us, rest) =>
    match spelled? [] us with
    | none => some (.ill, rest)
    | some s => some (.str (String.ofList s), rest)

/-- A number and what follows it. -/
def number? (cs : List Char) : Option (Json × List Char) := do
  let (valued, rest) ← magnitude? (if cs.head? = some '-' then cs.drop 1 else cs)
  let spelling := cs.take (cs.length - rest.length)
  return (if valued then .num (String.ofList spelling) else .ill, rest)

/-- The first token of a text that does not begin with a blank, and what follows it. -/
def token? : List Char → Option (Token × List Char)
  | '{' :: cs => some (.openBrace, cs)
  | '}' :: cs => some (.closeBrace, cs)
  | '[' :: cs => some (.openBracket, cs)
  | ']' :: cs => some (.closeBracket, cs)
  | ':' :: cs => some (.colon, cs)
  | ',' :: cs => some (.comma, cs)
  | '"' :: cs => (text? cs).map fun (j, rest) => (.scalar j, rest)
  | 'n' :: 'u' :: 'l' :: 'l' :: cs => some (.scalar .null, cs)
  | 't' :: 'r' :: 'u' :: 'e' :: cs => some (.scalar (.bool true), cs)
  | 'f' :: 'a' :: 'l' :: 's' :: 'e' :: cs => some (.scalar (.bool false), cs)
  | cs => (number? cs).map fun (j, rest) => (.scalar j, rest)

/-- The tokens of a text, given at least as much fuel as it has characters. -/
def tokensOnto (acc : List Token) : Nat → List Char → Option (List Token)
  | 0, cs => if cs.isEmpty then some acc.reverse else none
  | fuel + 1, cs =>
    match cs.dropWhile isSpace with
    | [] => some acc.reverse
    | cs =>
      match token? cs with
      | none => none
      | some (t, rest) => tokensOnto (t :: acc) fuel rest

/-- The tokens of a text. -/
def tokens? (cs : List Char) : Option (List Token) := tokensOnto [] cs.length cs

end SchemaEditor.Json
