import SchemaEditor.Command.Failure
import SchemaEditor.Command.Line

/-!
# Commands on the configuration

Showing the settings in effect, saying where they come from, and setting one of them. A setting is
written to the file that the configuration was read from, or to a new one in the home directory.
-/

namespace SchemaEditor.Command

/-- A truth value as it is shown. -/
def flagText (b : Bool) : String := if b then "true" else "false"

/-- The settings in effect. -/
def configLines (c : Config) : Except Failure (List String) :=
  match c.lockedGroups with
  | .error fault => .error (.config (.invalid fault))
  | .ok groups => .ok
    ["user = " ++ c.user.getD "(unset)",
      "history_limit = " ++ Text.Decimal.ofNat c.effectiveHistoryLimit,
      "log_filter = " ++ c.effectiveLogFilter,
      "actions.minor_version_additions = " ++ flagText c.minorVersionAdditions,
      "view_groups.locked = [" ++ ", ".intercalate (groups.map (·.text)) ++ "]"]

/-- Where the configuration was read from, or would be written to. -/
def configPathLine (env : Config.Environment) (loaded : Config.Loaded) : Except Failure String :=
  match loaded.path with
  | some path => .ok path
  | none =>
    match Config.globalPath env with
    | .ok path => .ok (path ++ " (not present)")
    | .error e => .error (.config e)

/-- A configuration with one setting replaced, which need not be valid. -/
def replaceSetting (c : Config) (key value : String) : Except Failure Config :=
  match key with
  | "user" => .ok { c with user := some value }
  | "history_limit" =>
    match Text.number Config.limitRange value with
    | .ok n => .ok { c with historyLimit := some n }
    | .error cause => .error (.invalidLimit value cause)
  | "log_filter" => .ok { c with logFilter := some value }
  | "actions.minor_version_additions" =>
    match value with
    | "true" => .ok { c with actions := some ⟨some true⟩ }
    | "false" => .ok { c with actions := some ⟨some false⟩ }
    | _ => .error (.invalidFlag value)
  | _ => .error (.unknownSetting key)

/-- A configuration with one setting replaced. -/
def withSetting (c : Config) (key value : String) : Except Failure Config := do
  let changed ← replaceSetting c key value
  match changed.validate with
  | .ok _ => return changed
  | .error fault => throw (.invalidSetting fault)

/-- A change of files by a command. -/
abbrev Change := EStateM Failure Storage.Tree

/-- Changes a configuration file. -/
def writing {α : Type} (change : Config.Change α) : Change α := fun t =>
  match change t with
  | .ok a t => .ok a t
  | .error e t => .error (.writeConfig e) t

/-- Writes the configuration and gives the path of its file. -/
def saveConfig (env : Config.Environment) (c : Config) : Option String → Change String
  | some path => do
    writing (c.write path)
    return path
  | none => writing (c.writeGlobal env)

/-- Sets a value and says so. -/
def setConfig (env : Config.Environment) (loaded : Config.Loaded) (key value : String) :
    Change String := do
  match withSetting loaded.config key value with
  | .error f => throw f
  | .ok c =>
    let path ← saveConfig env c loaded.path
    return "Set " ++ key ++ " = " ++ value ++ " in " ++ path

end SchemaEditor.Command
