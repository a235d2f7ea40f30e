import SchemaEditor.Command.Configure
import SchemaEditor.Command.Report

/-!
# The program

From arguments, environment and files to what is printed, the exit code and the files afterwards.
-/

namespace SchemaEditor.Command

/-- The version that the program reports. -/
def versionLine : String := "dex 0.2.2"

/-- The usage that the program reports. -/
def usageLines : List String :=
  ["Inspect and edit schema model snapshots", "",
    "Usage: dex [--user <USER>] [-q] [--debug] <COMMAND>", "", "Commands:",
    "  tree <SNAPSHOT> [--no-builtins] [--inherited]", "  where-used <SNAPSHOT> <KEY>",
    "  actions <SNAPSHOT> <KEY>", "  run <SNAPSHOT> <ACTION> <KEY> [--param <PARAM>]",
    "  verify <SNAPSHOT>", "  config list | path | set <KEY> <VALUE>"]

/-- What a run of the program leaves behind. -/
structure Run where
  exitCode : Nat
  /-- The texts written to the first stream, each with a line end after it. -/
  out : List String
  /-- The texts written to the second stream. -/
  err : List String
  files : Storage.Tree

/-- The run that a report describes. A failure is told last. -/
def Report.toRun (r : Report) (files : Storage.Tree) : Run :=
  match r.failure with
  | none => ⟨0, r.out, r.err, files⟩
  | some f => ⟨1, r.out, r.err ++ ["error: " ++ f.message], files⟩

/-- The report of a command on a snapshot file. -/
def snapshotReport (ctx : Context) (stamps : Nat → Stamp) (files : Storage.Tree) :
    Command → Except Failure Report
  | .tree path noBuiltins inherited => do
    return treeReport (← Workspace.open_ ctx files path) noBuiltins inherited
  | .whereUsed path key => do
    Report.ofStep (whereUsedReport ctx.quiet key) (← Workspace.open_ ctx files path)
  | .actions path key => do
    Report.ofStep (actionsReport ctx.quiet key) (← Workspace.open_ ctx files path)
  | .run path action key param => do
    let action ← argument (Action.parse action)
    Report.ofStep (runReport ctx.quiet stamps action key param) (← Workspace.open_ ctx files path)
  | .verify path => do
    return verifyReport ctx.quiet (← Workspace.open_ ctx files path)
  | .config _ => return .ofLines []

/-- Runs a command on the configuration. -/
def runConfig (quiet : Bool) (env : Config.Environment) (loaded : Config.Loaded)
    (files : Storage.Tree) : ConfigCommand → Run
  | .list => (Report.ofResult ((configLines loaded.config).map .ofLines)).toRun files
  | .path =>
    (Report.ofResult ((configPathLine env loaded).map fun l => .ofLines [l])).toRun files
  | .set key value =>
    match setConfig env loaded key value files with
    | .ok line files => (Report.ofLines (if quiet then [] else [line])).toRun files
    | .error f files => (Report.ofResult (.error f)).toRun files

/-- Runs a command. -/
def runCommand (env : Config.Environment) (stamps : Nat → Stamp) (files : Storage.Tree)
    (options : Options) (command : Command) : Run :=
  match Config.load env files with
  | .error e => (Report.ofResult (.error (.loadConfig e))).toRun files
  | .ok loaded =>
    match command with
    | .config command => runConfig options.quiet env loaded files command
    | command =>
      let ctx : Context := ⟨options.quiet, options.user.or loaded.config.user, loaded.config⟩
      (Report.ofResult (snapshotReport ctx stamps files command)).toRun files

/-- Runs the program with arguments. -/
def execute (env : Config.Environment) (stamps : Nat → Stamp) (files : Storage.Tree)
    (args : List String) : Run :=
  match parse args with
  | .command options command => runCommand env stamps files options command
  | .version => ⟨0, [versionLine], [], files⟩
  | .help => ⟨0, usageLines, [], files⟩
  | .misuse => ⟨2, [], usageLines, files⟩

end SchemaEditor.Command
