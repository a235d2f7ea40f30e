import SchemaEditor.Action.Error
import SchemaEditor.Config.Store
import SchemaEditor.Snapshot.Loader
import SchemaEditor.Text.Number

/-!
# Failures of commands

Why a command fails, told from the outside in: what was to be done, and what stood in the way. A
refusal of the file system is told twice, once within the message that it caused.
-/

namespace SchemaEditor.Command

/-- Why a command fails. -/
inductive Failure where
  | loadConfig (cause : Config.Error)
  | readSnapshot (path : String) (cause : Storage.Fault)
  /-- The file holds no snapshot. -/
  | parseSnapshot (path : String)
  | loadSnapshot (path : String) (cause : Snapshot.Error)
  | index (cause : Model.Error)
  | lockedGroups (cause : Config.Fault)
  | unknownKey (key : String) (cause : Snapshot.Error)
  | uneditable (key : String) (cause : Graph.Error)
  | refused (action : Action) (key : String) (cause : Action.Error)
  | needlessParameter (action : Action)
  | argument (cause : ArgumentError)
  | graph (cause : Graph.Error)
  | policy (cause : Action.Error)
  | unknownSetting (key : String)
  | invalidLimit (value : String) (cause : Text.NumberFault)
  | invalidFlag (value : String)
  | invalidSetting (cause : Config.Fault)
  | writeConfig (cause : Config.Error)
  | config (cause : Config.Error)
  | inconsistent (count : Nat)
  deriving DecidableEq

namespace Failure

/-- The messages of a refusal of the configuration. -/
def configChain (e : Config.Error) : List String :=
  e.message :: e.cause?.toList.map (·.message)

/-- The messages of a failure, the outermost first. -/
def chain : Failure → List String
  | .loadConfig cause => "Failed to load config" :: configChain cause
  | .readSnapshot path cause =>
    ["Failed to read snapshot '" ++ path ++ "'", "failed to read snapshot: " ++ cause.message,
      cause.message]
  | .parseSnapshot path =>
    ["Failed to read snapshot '" ++ path ++ "'", "failed to parse snapshot: not a valid snapshot"]
  | .loadSnapshot path cause => ["Failed to load snapshot '" ++ path ++ "'", cause.message]
  | .index cause => ["Failed to index type references", cause.message]
  | .lockedGroups cause => ["Invalid view group in config", cause.message]
  | .unknownKey key cause => ["No object with key '" ++ key ++ "'", cause.message]
  | .uneditable key cause => ["'" ++ key ++ "' cannot be edited", cause.message]
  | .refused action key cause =>
    [action.name ++ " on '" ++ key ++ "' was refused", cause.message]
  | .needlessParameter action => [action.name ++ " takes no parameter"]
  | .argument cause => [cause.message]
  | .graph cause => [cause.message]
  | .policy cause => [cause.message]
  | .unknownSetting key => ["Unknown configuration key: " ++ key]
  | .invalidLimit value cause =>
    ["history_limit must be a number, got '" ++ value ++ "'", cause.message]
  | .invalidFlag value =>
    ["expected true or false, got '" ++ value ++ "'",
      "provided string was not \x60true\x60 or \x60false\x60"]
  | .invalidSetting cause => ["Invalid configuration value", cause.message]
  | .writeConfig cause => "Failed to write config" :: configChain cause
  | .config cause => configChain cause
  | .inconsistent count => [Text.Decimal.ofNat count ++ " inconsistencies found"]

/-- The wording of a failure. -/
def message (f : Failure) : String := ": ".intercalate f.chain

end Failure

end SchemaEditor.Command
