import SchemaEditor.Config.Codec
import SchemaEditor.Storage.Tree

/-!
# Configuration files

The configuration is read from the first file that is there: the one that the environment names,
the one in the directory for configurations, and the one in the home directory, which is also where
a new one is written. Files are replaced as a whole, by way of a temporary file beside them.
-/

namespace SchemaEditor.Config

/-- What the environment says about configurations. -/
structure Environment where
  /-- The path of a configuration file. -/
  file : Option String
  /-- The directory for configurations. -/
  directory : Option String
  /-- The home directory. -/
  home : Option String

/-- What the variables of an environment say; an empty home directory counts as none. -/
def Environment.ofVariables (valueOf : String → Option String) : Environment :=
  { file := valueOf "DEX_CONFIG", directory := valueOf "XDG_CONFIG_HOME"
    home := (valueOf "HOME").filter (· ≠ "") }

/-- Why a configuration cannot be read or written. -/
inductive Error where
  | read (path : String) (cause : Storage.Fault)
  /-- The file holds no configuration. -/
  | parse (path : String)
  | write (path : String) (cause : Storage.Fault)
  | invalid (fault : Fault)
  | noHome
  deriving DecidableEq

/-- The kind of a refusal in one word. -/
def Error.name : Error → String
  | .read .. => "ReadError"
  | .parse _ => "ParseError"
  | .write .. => "WriteError"
  | .invalid _ => "InvalidValue"
  | .noHome => "NoHomeDir"

/-- The wording of a refusal. -/
def Error.message : Error → String
  | .read path cause => "failed to read config file '" ++ path ++ "': " ++ cause.message
  | .parse path => "failed to parse config file '" ++ path ++ "': not a valid configuration"
  | .write path cause => "failed to write config file '" ++ path ++ "': " ++ cause.message
  | .invalid fault => fault.message
  | .noHome => "home directory not found"

/-- The refusal of the file system behind a refusal. -/
def Error.cause? : Error → Option Storage.Fault
  | .read _ cause | .write _ cause => some cause
  | _ => none

/-- Something to be told about a configuration that was read. -/
structure Warning where
  message : String
  path : String
  deriving DecidableEq

/-- A configuration with the path it was read from, if there was a file. -/
structure Loaded where
  config : Config
  path : Option String
  warnings : List Warning
  deriving DecidableEq

/-! ### Reading -/

/-- Reads a configuration file. -/
def loadFile (t : Storage.Tree) (path : String) : Except Error Config :=
  match t.read path with
  | .error cause => .error (.read path cause)
  | .ok text =>
    match Config.parse text with
    | none => .error (.parse path)
    | some c =>
      match c.validate with
      | .error fault => .error (.invalid fault)
      | .ok _ => .ok c

/-- Where a configuration file lies in the directory for configurations. -/
def directoryFile (directory : String) : String := Storage.join directory "dex/config.toml"

/-- Where a configuration file lies in the home directory. -/
def homeFile (home : String) : String := Storage.join home ".dex/config.toml"

/-- Where a new configuration file is written. -/
def globalPath (env : Environment) : Except Error String :=
  match env.home with
  | some home => .ok (homeFile home)
  | none => .error .noHome

/-- The warning about a named file that is not there. -/
def missingWarning (path : String) : Warning :=
  ⟨"DEX_CONFIG points to a missing file; ignoring it", path⟩

/-- The paths where a configuration file may lie, in the order in which they are tried. -/
def candidates (env : Environment) : List String :=
  env.file.toList ++ (env.directory.map directoryFile).toList ++ (env.home.map homeFile).toList

/-- The warnings about the files that are not there. -/
def warnings (env : Environment) (t : Storage.Tree) : List Warning :=
  (env.file.toList.filter fun path => !t.contains path).map missingWarning

/-- Reads the first configuration file that is there. -/
def load (env : Environment) (t : Storage.Tree) : Except Error Loaded :=
  match (candidates env).find? t.contains with
  | none => .ok ⟨.empty, none, warnings env t⟩
  | some path =>
    match loadFile t path with
    | .error e => .error e
    | .ok c => .ok ⟨c, some path, warnings env t⟩

/-! ### Writing -/

/-- A change of the tree that may be refused. -/
abbrev Change := EStateM Error Storage.Tree

/-- A change of the tree for writing the file at a path. -/
def writing {α : Type} (path : String) (change : Storage.Tree.Change α) : Change α := fun t =>
  match change t with
  | .ok a t => .ok a t
  | .error cause t => .error (.write path cause) t

/-- The temporary file beside a configuration file. -/
def temporaryPath (path : String) : String := Storage.withExtension path "toml.tmp"

/-- Writes a configuration file, with the directories around it. -/
def write (c : Config) (path : String) : Change Unit := do
  writing path (Storage.Tree.createDirectories (Storage.parent path))
  match c.print with
  | .error fault => throw (.invalid fault)
  | .ok text =>
    writing (temporaryPath path) (Storage.Tree.write (temporaryPath path) text)
    writing path (Storage.Tree.rename (temporaryPath path) path)

/-- Writes the configuration file in the home directory and gives its path. -/
def writeGlobal (env : Environment) (c : Config) : Change String := do
  match globalPath env with
  | .error e => throw e
  | .ok path =>
    c.write path
    return path

end SchemaEditor.Config
