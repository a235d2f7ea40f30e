import SchemaEditor.Text.Hexadecimal

/-!
# UUIDs

Identifiers of 32 hexadecimal digits. They are written in lower case with hyphens; they are read in
either case in that form, also in braces or after `urn:uuid:`, and without any hyphens.
-/

namespace SchemaEditor

/-- Whether a character is a hexadecimal digit in lower case. -/
def isLowerHex (c : Char) : Bool := c.isDigit || ('a' ≤ c && c ≤ 'f')

/-- A UUID by its hexadecimal digits. -/
structure Uuid where
  digits : List Char
  length_eq : digits.length = 32
  isHex : ∀ c ∈ digits, isLowerHex c = true
  deriving DecidableEq

namespace Uuid

/-- The UUID of hexadecimal digits in either case. -/
def ofDigits? (cs : List Char) : Option Uuid :=
  let ds := cs.map Char.toLower
  if h : ds.length = 32 ∧ ds.all isLowerHex = true then
    some ⟨ds, h.1, List.all_eq_true.mp h.2⟩
  else none

/-- The digits of a text that has hyphens after 8, 12, 16 and 20 digits. -/
def unhyphenated? (cs : List Char) : Option (List Char) :=
  if cs.length = 36 ∧ cs[8]? = some '-' ∧ cs[13]? = some '-' ∧ cs[18]? = some '-' ∧
      cs[23]? = some '-' then
    some (cs.take 8 ++ (cs.drop 9).take 4 ++ (cs.drop 14).take 4 ++ (cs.drop 19).take 4 ++
      cs.drop 24)
  else none

/-- The beginning of a UUID written as a name. -/
def urnMark : List Char := "urn:uuid:".toList

/-- Takes braces or the mark of a name off a text. -/
def unwrapped (cs : List Char) : List Char :=
  if cs.head? = some '{' ∧ cs.getLast? = some '}' ∧ cs.length = 38 then (cs.drop 1).dropLast
  else if urnMark.isPrefixOf cs then cs.drop urnMark.length
  else cs

/-- Reads a UUID. -/
def parse? (s : String) : Option Uuid :=
  if s.toList.length = 32 then ofDigits? s.toList
  else (unhyphenated? (unwrapped s.toList)).bind ofDigits?

/-- The digits of a byte. -/
def byteDigits (byte : UInt8) : List Char :=
  [Text.Hexadecimal.lowerDigit (byte.toNat / 16), Text.Hexadecimal.lowerDigit (byte.toNat % 16)]

/-- The UUID of version 4 with sixteen random bytes. -/
def ofRandom? (bytes : List UInt8) : Option Uuid :=
  let stamped := bytes.zipIdx.map fun (b, i) =>
    if i = 6 then b % 16 + 0x40 else if i = 8 then b % 64 + 0x80 else b
  ofDigits? (stamped.flatMap byteDigits)

/-- The text of a UUID. -/
def text (u : Uuid) : String :=
  String.ofList (u.digits.take 8 ++ '-' :: ((u.digits.drop 8).take 4 ++ '-' ::
    ((u.digits.drop 12).take 4 ++ '-' :: ((u.digits.drop 16).take 4 ++ '-' ::
      u.digits.drop 20))))

end Uuid

end SchemaEditor
