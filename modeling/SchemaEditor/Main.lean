import SchemaEditor.Command.Program
import SchemaEditor.Time.Epoch
import Std.Time.DateTime.Timestamp

/-!
# The command line

Looks at the files that a run may touch, runs the program on them, and writes back what changed.
-/

namespace SchemaEditor.Main

open Storage

/-- The error number of the system for reading a directory as a file. -/
def directoryCode : UInt32 := 21

/-- Notes what stands at a place. -/
def observeAt (t : Tree) (place : Place) : IO Tree := do
  try
    return t.put place (.file (← IO.FS.readFile place.text))
  catch
    | .inappropriateType _ code _ =>
      return if code = directoryCode then t.put place .directory else t
    | _ => return t

/-- Notes what stands at the end of a path and on the way there. -/
def observe (t : Tree) (path : String) : IO Tree := do
  let mut t := t
  let mut here := start path
  for name in names path do
    here := step here name
    if here ≠ [] ∧ here ≠ ["/"] then
      t ← observeAt t here
  return t

/-- The paths that a run may read or write. -/
def touched (env : Config.Environment) (args : List String) : List String :=
  let configs := Config.candidates env
  let snapshots := match Command.parse args with
    | .command _ command => command.snapshot?.toList
    | _ => []
  configs ++ configs.map Config.temporaryPath ++ snapshots

/-- Writes a file by way of a temporary one. -/
def replace (path text : String) : IO Unit := do
  if parent path ≠ "" then IO.FS.createDirAll (parent path)
  IO.FS.writeFile (Config.temporaryPath path) text
  IO.FS.rename (Config.temporaryPath path) path

/-- How many events of a run get an identity of their own. -/
def stampCount : Nat := 8

/-- The stamps of events: the present time, and random identities. -/
def drawStamps : IO (Nat → Command.Stamp) := do
  let now := (← Std.Time.Timestamp.now).val
  let time := Timestamp.ofClock now.second.val now.nano.val.toNat
  let mut ids := #[]
  for _ in List.range stampCount do
    if let some id := Uuid.ofRandom? (← IO.getRandomBytes 16).toList then ids := ids.push id
  match ids[0]? with
  | none => throw (IO.userError "no random bytes")
  | some first => return fun i => ⟨ids.getD i first, time⟩

/-- The environment of the process. -/
def environment : IO Config.Environment := do
  let file ← IO.getEnv "DEX_CONFIG"
  let directory ← IO.getEnv "XDG_CONFIG_HOME"
  let home ← IO.getEnv "HOME"
  return .ofVariables fun
    | "DEX_CONFIG" => file
    | "XDG_CONFIG_HOME" => directory
    | _ => home

end SchemaEditor.Main

open SchemaEditor SchemaEditor.Main in
/-- Runs the program in the file system of the process. -/
def main (args : List String) : IO UInt32 := do
  let env ← environment
  let before ← (touched env args).foldlM observe Storage.Tree.empty
  let run := Command.execute env (← drawStamps) before args
  run.out.forM fun line => IO.println line
  run.err.forM fun line => IO.eprintln line
  for (path, text) in run.files.files do
    unless before.files.contains (path, text) do replace path text
  return UInt32.ofNat run.exitCode
