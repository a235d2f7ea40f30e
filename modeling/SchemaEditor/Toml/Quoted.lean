import SchemaEditor.Text.Hexadecimal
import SchemaEditor.Toml.Value

/-!
# Quoted texts

The four forms of a text: in double quotes with escapes, in single quotes without any, and each of
them in triple quotes over several lines. A text is written in the plainest form that can hold it.
-/

namespace SchemaEditor.Toml.Quoted

/-! ### Reading -/

/-- The character of a one-letter escape. -/
def escaped? : Char → Option Char
  | 'b' => some '\x08'
  | 't' => some '\t'
  | 'n' => some '\n'
  | 'f' => some '\x0c'
  | 'r' => some '\r'
  | '"' => some '"'
  | '\\' => some '\\'
  | _ => none

/-- The character of a code point in hexadecimal digits. -/
def scalar? (digits : List Char) : Option Char :=
  match Text.Hexadecimal.value? 16 digits with
  | some n => if h : n.isValidChar then some (Char.ofNatAux n h) else none
  | none => none

/-- Puts a character in front of what was read. -/
def consRead (c : Char) (read : Option (List Char × List Char)) :
    Option (List Char × List Char) :=
  read.map fun (cs, rest) => (c :: cs, rest)

/-- Reads up to a closing double quote. -/
def basic? : List Char → Option (List Char × List Char)
  | [] => none
  | '"' :: rest => some ([], rest)
  | '\\' :: 'u' :: a :: b :: c :: d :: rest =>
    match scalar? [a, b, c, d] with
    | some x => consRead x (basic? rest)
    | none => none
  | '\\' :: 'U' :: a :: b :: c :: d :: e :: f :: g :: h :: rest =>
    match scalar? [a, b, c, d, e, f, g, h] with
    | some x => consRead x (basic? rest)
    | none => none
  | '\\' :: e :: rest =>
    match escaped? e with
    | some x => consRead x (basic? rest)
    | none => none
  | c :: rest => if isInline c then consRead c (basic? rest) else none

/-- Reads up to a closing single quote. -/
def literal? : List Char → Option (List Char × List Char)
  | [] => none
  | '\'' :: rest => some ([], rest)
  | c :: rest => if isInline c then consRead c (literal? rest) else none

/-- Whether nothing but blanks is left on a line. -/
def endsLine (cs : List Char) : Bool := (newline? (cs.dropWhile isSpace)).isSome

/-- Reads up to three closing double quotes; one or two more of them right before belong to the
text. While `skipping`, blanks and line ends are left out, as after a backslash at the end of a
line. -/
def basicBlock? : Bool → List Char → Option (List Char × List Char)
  | _, [] => none
  | _, '"' :: '"' :: '"' :: '"' :: '"' :: rest => some (['"', '"'], rest)
  | _, '"' :: '"' :: '"' :: '"' :: rest => some (['"'], rest)
  | _, '"' :: '"' :: '"' :: rest => some ([], rest)
  | skipping, '\n' :: rest =>
    if skipping then basicBlock? true rest else consRead '\n' (basicBlock? false rest)
  | skipping, '\r' :: '\n' :: rest =>
    if skipping then basicBlock? true rest else consRead '\n' (basicBlock? false rest)
  | _, '\\' :: 'u' :: a :: b :: c :: d :: rest =>
    match scalar? [a, b, c, d] with
    | some x => consRead x (basicBlock? false rest)
    | none => none
  | _, '\\' :: 'U' :: a :: b :: c :: d :: e :: f :: g :: h :: rest =>
    match scalar? [a, b, c, d, e, f, g, h] with
    | some x => consRead x (basicBlock? false rest)
    | none => none
  | _, '\\' :: e :: rest =>
    match escaped? e with
    | some x => consRead x (basicBlock? false rest)
    | none => if endsLine (e :: rest) then basicBlock? true (e :: rest) else none
  | skipping, c :: rest =>
    if skipping && isSpace c then basicBlock? true rest
    else if isInline c then consRead c (basicBlock? false rest)
    else none

/-- Reads up to three closing single quotes; one or two more of them right before belong to the
text. -/
def literalBlock? : List Char → Option (List Char × List Char)
  | [] => none
  | '\'' :: '\'' :: '\'' :: '\'' :: '\'' :: rest => some (['\'', '\''], rest)
  | '\'' :: '\'' :: '\'' :: '\'' :: rest => some (['\''], rest)
  | '\'' :: '\'' :: '\'' :: rest => some ([], rest)
  | '\n' :: rest => consRead '\n' (literalBlock? rest)
  | '\r' :: '\n' :: rest => consRead '\n' (literalBlock? rest)
  | c :: rest => if isInline c then consRead c (literalBlock? rest) else none

/-- Drops a line end right after opening quotes. -/
def afterOpening (cs : List Char) : List Char := (newline? cs).getD cs

/-- A text on one line in either kind of quotes, and what follows it. -/
def line? : List Char → Option (List Char × List Char)
  | '"' :: cs => basic? cs
  | '\'' :: cs => literal? cs
  | _ => none

/-- A text in any form, and what follows it. -/
def read? : List Char → Option (List Char × List Char)
  | '"' :: '"' :: '"' :: cs => basicBlock? false (afterOpening cs)
  | '\'' :: '\'' :: '\'' :: cs => literalBlock? (afterOpening cs)
  | cs => line? cs

/-! ### Writing -/

/-- The form in which a text is written. -/
inductive Form where
  | basic
  | literal
  | basicBlock
  | literalBlock
  deriving DecidableEq

/-- Whether a character cannot stand for itself in any form. -/
def needsEscape (c : Char) : Bool := c != '\n' && !isInline c

/-- The length of the longest run of a character, given the length of the run so far. -/
def longestRun (q : Char) (run : Nat) : List Char → Nat
  | [] => run
  | c :: cs => if c = q then longestRun q (run + 1) cs else max run (longestRun q 0 cs)

/-- The first form, from the plainest on, that holds a text; a text that needs escapes is written
in double quotes. -/
def form (cs : List Char) : Form :=
  let escapes := cs.any needsEscape
  let lines := cs.contains '\n'
  if !escapes && !lines && !cs.contains '\\' && !cs.contains '"' then .basic
  else if !escapes && !lines && !cs.contains '\'' then .literal
  else if !escapes && !cs.contains '\\' && longestRun '"' 0 cs ≤ 2 then .basicBlock
  else if !escapes && longestRun '\'' 0 cs ≤ 2 then .literalBlock
  else if lines then .basicBlock
  else .basic

/-- The escape of a control character by its code point. -/
def codeEscape (c : Char) : List Char :=
  ['\\', 'u', '0', '0', Text.Hexadecimal.upperDigit (c.toNat / 16),
    Text.Hexadecimal.upperDigit (c.toNat % 16)]

/-- A character other than a double quote or line end as it stands inside double quotes. -/
def escape (c : Char) : List Char :=
  if c = '\x08' then ['\\', 'b']
  else if c = '\t' then ['\\', 't']
  else if c = '\x0c' then ['\\', 'f']
  else if c = '\r' then ['\\', 'r']
  else if c = '\\' then ['\\', '\\']
  else if isInline c then [c]
  else codeEscape c

/-- A text as it stands inside double quotes on one line. -/
def escapeLine : List Char → List Char
  | [] => []
  | c :: cs =>
    (if c = '"' then ['\\', '"'] else if c = '\n' then ['\\', 'n'] else escape c) ++ escapeLine cs

/-- A text as it stands inside triple double quotes after `run` double quotes: every third one in
a row is escaped. -/
def escapeBlock : Nat → List Char → List Char
  | _, [] => []
  | run, c :: cs =>
    if c = '"' then
      if run < 2 then '"' :: escapeBlock (run + 1) cs else '\\' :: '"' :: escapeBlock 0 cs
    else if c = '\n' then '\n' :: escapeBlock 0 cs
    else escape c ++ escapeBlock 0 cs

/-- The line end after opening triple quotes, which a text over several lines gets. -/
def opening (cs : List Char) : List Char := if cs.contains '\n' then ['\n'] else []

/-- A text in quotes. -/
def write (cs : List Char) : List Char :=
  match form cs with
  | .basic => '"' :: (escapeLine cs ++ ['"'])
  | .literal => '\'' :: (cs ++ ['\''])
  | .basicBlock =>
    ['"', '"', '"'] ++ (opening cs ++ (escapeBlock 0 cs ++ ['"', '"', '"']))
  | .literalBlock => ['\'', '\'', '\''] ++ (opening cs ++ (cs ++ ['\'', '\'', '\'']))

end SchemaEditor.Toml.Quoted
