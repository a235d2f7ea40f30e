/-!
# Command lines

The commands of the program and the grammar of its arguments. Three options are known everywhere,
others only within their command; an option may be given once in the arguments of each command,
and of an option that several levels give the innermost one counts. Everything after `--` is an
argument, whatever it looks like.
-/

namespace SchemaEditor

/-- What to do with the configuration. -/
inductive ConfigCommand where
  | list
  | path
  | set (key value : String)
  deriving DecidableEq

/-- A command of the program. -/
inductive Command where
  | tree (snapshot : String) (noBuiltins inherited : Bool)
  | whereUsed (snapshot key : String)
  | actions (snapshot key : String)
  | run (snapshot action key : String) (param : Option String)
  | verify (snapshot : String)
  | config (command : ConfigCommand)
  deriving DecidableEq

namespace Command

/-- The path of the snapshot that a command opens. -/
def snapshot? : Command → Option String
  | .tree path .. | .whereUsed path _ | .actions path _ | .run path .. | .verify path => some path
  | .config _ => none

/-- The options that every command knows. -/
structure Options where
  debug : Bool
  quiet : Bool
  user : Option String
  deriving DecidableEq

/-- What arguments ask for. -/
inductive Request where
  | command (options : Options) (command : Command)
  | version
  | help
  /-- The arguments do not fit the grammar. -/
  | misuse
  deriving DecidableEq

/-- The part of the grammar that holds after the names of some commands. -/
inductive Scope where
  | program
  | tree
  | whereUsed
  | actions
  | run
  | verify
  | config
  | configList
  | configPath
  | configSet
  deriving DecidableEq

namespace Scope

/-- The commands that may be named. -/
def commands : Scope → List (String × Scope)
  | .program =>
    [("tree", .tree), ("where-used", .whereUsed), ("actions", .actions), ("run", .run),
      ("verify", .verify), ("config", .config)]
  | .config => [("list", .configList), ("path", .configPath), ("set", .configSet)]
  | _ => []

/-- The options without a value. -/
def flags : Scope → List String
  | .tree => ["debug", "quiet", "no-builtins", "inherited"]
  | _ => ["debug", "quiet"]

/-- The options with a value. -/
def settings : Scope → List String
  | .run => ["user", "param"]
  | _ => ["user"]

/-- The number of arguments. -/
def arity : Scope → Nat
  | .tree | .verify => 1
  | .whereUsed | .actions | .configSet => 2
  | .run => 3
  | _ => 0

/-- Whether the first argument is a path, which must not be empty. -/
def takesPath : Scope → Bool
  | .tree | .verify | .whereUsed | .actions | .run => true
  | _ => false

end Scope

/-- Arguments read so far. -/
structure Scan where
  scope : Scope
  /-- The options given since the scope was entered. -/
  given : List String
  /-- The arguments given since the scope was entered, in order. -/
  arguments : List String
  options : Options
  /-- The value of the parameter option. -/
  param : Option String

/-- How the reading of arguments goes on. -/
inductive Progress where
  | more (scan : Scan)
  /-- A request that later arguments do not change. -/
  | done (request : Request)

namespace Scan

/-- The scan that has seen nothing. -/
def start : Scan := ⟨.program, [], [], ⟨false, false, none⟩, none⟩

/-- Takes an option without a value. -/
def takeFlag (s : Scan) (name : String) : Progress :=
  if name ∈ s.given then .done .misuse
  else
    let s := { s with given := name :: s.given }
    match name with
    | "debug" => .more { s with options := { s.options with debug := true } }
    | "quiet" => .more { s with options := { s.options with quiet := true } }
    | _ => .more s

/-- Takes an option with its value. -/
def takeSetting (s : Scan) (name value : String) : Progress :=
  if name ∈ s.given then .done .misuse
  else
    let s := { s with given := name :: s.given }
    match name with
    | "user" => .more { s with options := { s.options with user := some value } }
    | _ => .more { s with param := some value }

/-- Takes an argument that is no option. -/
def takeArgument (s : Scan) (arg : String) : Progress :=
  if s.arguments.length < s.scope.arity then
    if s.scope.takesPath ∧ s.arguments = [] ∧ arg = "" then .done .misuse
    else .more { s with arguments := s.arguments ++ [arg] }
  else .done .misuse

/-- Takes a bundle of one-letter options. -/
def takeLetters (s : Scan) : List Char → Progress
  | [] => .more s
  | 'q' :: cs =>
    match s.takeFlag "quiet" with
    | .more s => takeLetters s cs
    | done => done
  | 'h' :: _ => .done .help
  | 'V' :: _ => .done (if s.scope = .program then .version else .misuse)
  | _ :: _ => .done .misuse

/-- Takes an option by its name, with the value that was attached to it. -/
def takeLong (s : Scan) (name : String) (value : Option String) : Progress :=
  match value with
  | some v => if name ∈ s.scope.settings then s.takeSetting name v else .done .misuse
  | none =>
    if name ∈ s.scope.flags then s.takeFlag name
    else if name = "help" then .done .help
    else if name = "version" ∧ s.scope = .program then .done .version
    else .done .misuse

/-- The request of the arguments at their end. -/
def finish (s : Scan) : Request :=
  match s.scope, s.arguments with
  | .tree, [snapshot] =>
    .command s.options (.tree snapshot (s.given.contains "no-builtins")
      (s.given.contains "inherited"))
  | .whereUsed, [snapshot, key] => .command s.options (.whereUsed snapshot key)
  | .actions, [snapshot, key] => .command s.options (.actions snapshot key)
  | .run, [snapshot, action, key] => .command s.options (.run snapshot action key s.param)
  | .verify, [snapshot] => .command s.options (.verify snapshot)
  | .configList, [] => .command s.options (.config .list)
  | .configPath, [] => .command s.options (.config .path)
  | .configSet, [key, value] => .command s.options (.config (.set key value))
  | _, _ => .misuse

end Scan

/-- What an argument looks like. -/
inductive Look where
  | escape
  | long (name : String) (value : Option String)
  | letters (cs : List Char)
  | plain

/-- The name of an option and the value after an equals sign. -/
def splitSetting (cs : List Char) : Look :=
  match cs.dropWhile (· ≠ '=') with
  | [] => .long (String.ofList cs) none
  | _ :: value => .long (String.ofList (cs.takeWhile (· ≠ '='))) (some (String.ofList value))

/-- What an argument looks like. A single hyphen is no option. -/
def look (arg : String) : Look :=
  match arg.toList with
  | ['-', '-'] => .escape
  | '-' :: '-' :: cs => splitSetting cs
  | ['-'] => .plain
  | '-' :: cs => .letters cs
  | _ => .plain

/-- Reads arguments after `--`. -/
def scanPlain (s : Scan) : List String → Request
  | [] => s.finish
  | arg :: rest =>
    match s.takeArgument arg with
    | .more s => scanPlain s rest
    | .done r => r

/-- Reads the names of commands after a request for help. -/
def scanHelp (scope : Scope) : List String → Request
  | [] => .help
  | name :: rest =>
    match scope.commands.lookup name with
    | some inner => scanHelp inner rest
    | none => if name = "help" ∧ scope.commands ≠ [] ∧ rest = [] then .help else .misuse

/-- Reads arguments. -/
def scan (s : Scan) : List String → Request
  | [] => s.finish
  | arg :: rest =>
    match look arg with
    | .escape => scanPlain s rest
    | .letters cs =>
      match s.takeLetters cs with
      | .more s => scan s rest
      | .done r => r
    | .long name none =>
      if name ∈ s.scope.settings then
        match rest with
        | [] => .misuse
        | value :: rest =>
          match look value, s.takeSetting name value with
          | .plain, .more s => scan s rest
          | _, _ => .misuse
      else
        match s.takeLong name none with
        | .more s => scan s rest
        | .done r => r
    | .long name (some value) =>
      match s.takeLong name (some value) with
      | .more s => scan s rest
      | .done r => r
    | .plain =>
      if s.scope.commands = [] then
        match s.takeArgument arg with
        | .more s => scan s rest
        | .done r => r
      else
        match s.scope.commands.lookup arg with
        | some scope => scan { s with scope, given := [] } rest
        | none => if arg = "help" then scanHelp s.scope rest else .misuse

/-- What the arguments of the program ask for. -/
def parse (args : List String) : Request := scan .start args

end Command

end SchemaEditor
