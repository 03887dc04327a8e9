import SambaShares.Json
import SambaShares.Manager
import SambaShares.Settings.Encode
import SambaShares.Invocation.Options
/-!
What the program prints, and the status with which it ends: 0 if all went well, 1 if it failed and
the configuration is as it was, 2 if the configuration was saved but the service must be restarted
by hand, and for arguments that cannot be read.
-/

namespace SambaShares

structure Output where
  status : Nat := 0
  output : Text := []
  errors : Text := []
  deriving DecidableEq, Repr

namespace Output

def line (text : Text) : Text := text ++ ['\n']

/-- Lines, each with an end. -/
def lines (texts : List Text) : Text := texts.flatMap line

/-- A run that failed, by the message and those of its causes. -/
def failure (chain : List Text) : Output where
  status := 1
  errors := line ("error: ".toList ++ ": ".toList.intercalate chain)

/-- An object with text fields, on one line. -/
def record (fields : List (String × Text)) : Text :=
  line (Json.object (fields.map fun (key, value) => (key.toList, .text value))).compact

/-- The outcome of a read that can fail. -/
def ofResult {α : Type} (render : α → Output) : Except ChangeError α → Output
  | .ok result => render result
  | .error e => failure e.chain

end Output

def Share.toJson (share : Share) : Json :=
  .object [("name".toList, .text share.name), ("path".toList, .text share.path),
    ("writable".toList, .boolean share.writable), ("public".toList, .boolean share.guest),
    ("comment".toList, .text share.comment),
    ("valid_users".toList, .array (share.validUsers.map .text))]

/-- A share as a line of fields with tabs between them. -/
def Share.summary (share : Share) : Text :=
  ['\t'].intercalate [share.name, share.path,
    if share.writable then "rw".toList else "ro".toList,
    if share.validUsers.isEmpty then "-".toList else [','].intercalate share.validUsers,
    share.comment]

def Settings.toJson (settings : Settings) : Json :=
  .object [
    ("storage".toList, .object [
      ("conf_path".toList, .text settings.storage.confPath),
      ("backup_dir".toList, .text settings.storage.backupDir),
      ("max_backups".toList, .number settings.storage.maxBackups),
      ("file_mode".toList, .text settings.storage.fileMode)]),
    ("service".toList, .object [
      ("units".toList, .array (settings.service.units.map .text)),
      ("use_sudo".toList, .boolean settings.service.useSudo),
      ("systemctl_path".toList, .text settings.service.systemctlPath),
      ("restart_timeout_secs".toList, .number settings.service.restartTimeoutSecs)]),
    ("logging".toList, .object [("level".toList, .text settings.logging.level)])]

namespace Output

def ofShares (json : Bool) (shares : List Share) : Output where
  output := if json then line (Json.array (shares.map Share.toJson)).pretty
    else lines (shares.map Share.summary)

/-- Reports texts, such as users or the paths of backups. -/
def ofTexts (json : Bool) (texts : List Text) : Output where
  output := if json then line (Json.array (texts.map .text)).pretty else lines texts

def ofStates (json : Bool) (states : List (Text × UnitState)) : Output where
  output :=
    if json then
      line (Json.object (states.map fun (unit, state) => (unit, .text state.name))).pretty
    else lines (states.map fun (unit, state) => unit ++ ": ".toList ++ state.name)

/-- Reports the settings that are in force, and the file they are looked for in. -/
def ofSettings (json : Bool) (path : Text) (settings : Settings) : Output :=
  if json then { output := line settings.toJson.pretty }
  else match settings.write with
    | .ok text => { output := line ("# ".toList ++ path) ++ text }
    | .error e => { failure [e.message] with output := line ("# ".toList ++ path) }

def savedLine (backup : Text) : Text := line ("saved (backup: ".toList ++ backup ++ [')'])

def ofChange (json : Bool) : Except ChangeError Text → Output
  | .ok backup =>
    { output := if json then record [("backup", backup), ("status", "ok".toList)]
        else savedLine backup }
  | .error (.notReconciled backup cause) =>
    if json then
      { status := 2
        output := record [("backup", backup), ("reason", cause.message),
          ("status", "needs_restart".toList)] }
    else
      { status := 2
        output := savedLine backup
        errors := line ("warning: the file-sharing service needs a manual restart: ".toList ++
          cause.message) }
  | .error e =>
    { failure e.chain with
      output := if json then
          record [("kind", e.kind), ("message", e.message), ("status", "error".toList)]
        else [] }

def ofRestart (json restarted : Bool) : Output :=
  if restarted then { output := if json then record [("status", "ok".toList)] else [] }
  else failure ["service restart failed".toList]

def usage : Text := lines [
  "Usage: smbshare [OPTIONS] <COMMAND>".toList,
  [],
  "Commands:".toList,
  "  list                     List managed shares".toList,
  "  show <NAME>              Show one share".toList,
  "  add <NAME> <PATH>        Add a share".toList,
  "                           [--read-only] [--comment <COMMENT>] [--user <USER>]...".toList,
  "  update <OLD_NAME>        Change a share; what is not given keeps its value".toList,
  "                           [--name <NAME>] [--path <PATH>] [--writable <true|false>]".toList,
  "                           [--comment <COMMENT>] [--user <USER>]... [--clear-users]".toList,
  "  delete <NAME>            Remove a share".toList,
  "  users <NAME>             Print the users allowed on a share".toList,
  "  set-users <NAME> [USER]...  Replace the users allowed on a share".toList,
  "  status                   Show the state of the service units".toList,
  "  restart                  Restart the service units".toList,
  "  backups                  List configuration backups, oldest first".toList,
  "  config                   Print the effective settings".toList,
  "  help [COMMAND]           Print this text".toList,
  [],
  "Options:".toList,
  "  --config <FILE>          Settings file [env: SMBSHARE_CONFIG]".toList,
  "  --conf <FILE>            Share configuration file to manage [env: SMBSHARE_CONF]".toList,
  "  --json                   Print JSON instead of text".toList,
  "  -h, --help               Print this text".toList,
  "  -V, --version            Print the version".toList]

def ofRefusal : Refusal → Output
  | .help => { output := usage }
  | .version => { output := line "smbshare 0.1.0".toList }
  | .misuse => { status := 2, errors := line "error: unusable arguments".toList ++ usage }

end Output

end SambaShares
