import SchemaEditor.Json.Token

/-!
# Reading JSON

The tokens of a text drive a machine with a stack of open arrays and objects, so a text may be
nested to any depth. An array or object that is opened inside too many others is still checked
to its end, and is then `ill`.
-/

namespace SchemaEditor.Json

/-- An open array or object with what it holds so far, last first. -/
inductive Frame where
  | array (items : List Json)
  /-- `sound` is false once a key denotes no text; `key` is the key of the value to come. -/
  | object (fields : List (String × Json)) (sound : Bool) (key : String)

/-- What may come next. -/
inductive Expect where
  | value
  | valueOrClose
  | key
  | keyOrClose
  | colon
  | commaOrClose
  /-- The text is complete with this value. -/
  | finish (value : Json)

/-- A reading under way. -/
structure Reading where
  stack : List Frame
  expect : Expect

namespace Reading

/-- The reading that has seen nothing. -/
def start : Reading := ⟨[], .value⟩

/-- Puts a finished value into the innermost open array or object. -/
def put (stack : List Frame) (value : Json) : Reading :=
  match stack with
  | [] => ⟨[], .finish value⟩
  | .array items :: rest => ⟨.array (value :: items) :: rest, .commaOrClose⟩
  | .object fields sound key :: rest =>
    ⟨.object ((key, value) :: fields) sound key :: rest, .commaOrClose⟩

/-- Takes a key. -/
def putKey (stack : List Frame) (key : Json) : Option Reading :=
  match stack, key with
  | .object fields sound _ :: rest, .str s => some ⟨.object fields sound s :: rest, .colon⟩
  | .object fields _ _ :: rest, .ill => some ⟨.object fields false "" :: rest, .colon⟩
  | _, _ => none

/-- Closes the innermost open array or object if it is an object or not, as `brace` says. -/
def close (limit : Nat) (brace : Bool) : List Frame → Option Reading
  | .array items :: rest =>
    if brace then none
    else some (put rest (if rest.length < limit then .arr items.reverse else .ill))
  | .object fields sound _ :: rest =>
    if brace then
      some (put rest (if rest.length < limit && sound then .obj fields.reverse else .ill))
    else none
  | [] => none

/-- Takes one token. -/
def step (limit : Nat) (r : Reading) (t : Token) : Option Reading :=
  match r.expect, t with
  | .value, .scalar j | .valueOrClose, .scalar j => some (put r.stack j)
  | .value, .openBracket | .valueOrClose, .openBracket =>
    some ⟨.array [] :: r.stack, .valueOrClose⟩
  | .value, .openBrace | .valueOrClose, .openBrace =>
    some ⟨.object [] true "" :: r.stack, .keyOrClose⟩
  | .valueOrClose, .closeBracket => close limit false r.stack
  | .key, .scalar j | .keyOrClose, .scalar j => putKey r.stack j
  | .keyOrClose, .closeBrace => close limit true r.stack
  | .colon, .colon => some ⟨r.stack, .value⟩
  | .commaOrClose, .comma =>
    match r.stack with
    | .array _ :: _ => some ⟨r.stack, .value⟩
    | .object .. :: _ => some ⟨r.stack, .key⟩
    | [] => none
  | .commaOrClose, .closeBracket => close limit false r.stack
  | .commaOrClose, .closeBrace => close limit true r.stack
  | _, _ => none

/-- Takes all tokens of a text and gives its value. -/
def run (limit : Nat) (r : Reading) : List Token → Option Json
  | [] =>
    match r.expect with
    | .finish value => some value
    | _ => none
  | t :: ts =>
    match r.step limit t with
    | some r => run limit r ts
    | none => none

end Reading

/-- The value of a text whose arrays and objects count only up to a depth of `limit`. -/
def parseWithin (limit : Nat) (s : String) : Option Json :=
  (tokens? s.toList).bind (Reading.start.run limit)

/-- The depth up to which arrays and objects of a text are read. -/
def depthLimit : Nat := 127

/-- The value of a text. -/
def parse (s : String) : Option Json := parseWithin depthLimit s

end SchemaEditor.Json
