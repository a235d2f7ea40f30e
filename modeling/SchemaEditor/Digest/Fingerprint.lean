import SchemaEditor.Digest.Sha256

/-!
# Fingerprints

The fingerprint of a collection of lines is the SHA-256 of the sorted lines, each ended by a line
feed. Sorting by code points is sorting by bytes in UTF-8, so the order in which the lines were
collected does not show.
-/

namespace SchemaEditor.Digest

/-- The bytes that are hashed for a collection of lines. -/
def fingerprintText (lines : List String) : String :=
  String.join ((lines.mergeSort fun a b => !decide (b < a)).map (· ++ "\n"))

/-- The fingerprint of a collection of lines, in hexadecimal. -/
def fingerprint (lines : List String) : String :=
  Sha256.hex (fingerprintText lines).toUTF8.toList

end SchemaEditor.Digest
