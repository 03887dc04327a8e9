import SambaShares.Stamp
import SambaShares.Files
import SambaShares.Settings.Mode
import SambaShares.Document.Builtin
/-!
Where the live configuration lies, where its backups go, and why one of them cannot be read or
written.
-/

namespace SambaShares

structure Store where
  confPath : Text
  backupDir : Text
  /-- How many backups are kept; 0 keeps all. -/
  maxBackups : Nat := 20
  /-- The permission bits of the live configuration. -/
  fileMode : Nat := 0o644
  /-- How a point in time is written in the name of a backup. -/
  stamp : Nat → Text := Stamp.text

/-- Why the configuration cannot be read or saved. -/
inductive StoreError
  | read (path : Text) (cause : IoError)
  | notUtf8 (path : Text) (offset : Nat)
  | backup (path : Text) (cause : IoError)
  | write (path : Text) (cause : IoError)
  deriving DecidableEq, Repr

namespace StoreError

def message : StoreError → Text
  | read path cause => "failed to read ".toList ++ path ++ ": ".toList ++ cause.message
  | notUtf8 path offset =>
    path ++ " is not valid UTF-8 (first invalid byte at offset ".toList ++ Text.ofNat offset ++
      "); convert it to UTF-8 before managing shares".toList
  | backup path cause =>
    "failed to back up configuration to ".toList ++ path ++ ": ".toList ++ cause.message
  | write path cause => "failed to write ".toList ++ path ++ ": ".toList ++ cause.message

/-- The message and then that of the cause, if there is one. -/
def chain : StoreError → List Text
  | read path cause => [message (read path cause), cause.message]
  | notUtf8 path offset => [message (notUtf8 path offset)]
  | backup path cause => [message (backup path cause), cause.message]
  | write path cause => [message (write path cause), cause.message]

end StoreError

namespace Store

def ofSettings (settings : StorageSettings) : Except SettingsError Store :=
  settings.modeBits.map fun fileMode =>
    { confPath := settings.confPath, backupDir := settings.backupDir,
      maxBackups := settings.maxBackups, fileMode }

/-- How the names of the backups begin: with the name of the live file. -/
def backupStart (store : Store) : Text :=
  (Path.fileName? store.confPath).getD "smb.conf".toList ++ ".backup.".toList

def backupPath (store : Store) (time : Nat) : Text :=
  Path.join store.backupDir (store.backupStart ++ store.stamp time)

def liveDir (store : Store) : Text :=
  match Path.parent? store.confPath with
  | some (c :: rest) => c :: rest
  | _ => ['.']

def ofBytes (store : Store) (content : Bytes) : Except StoreError Document :=
  match Utf8.decode content with
  | .ok text => .ok (Document.parse text)
  | .error offset => .error (.notUtf8 store.confPath offset)

/-- Reads the live configuration; the built-in one stands in for a missing file. -/
def load (store : Store) : Script (Except StoreError Document) :=
  (Script.read store.confPath).bind fun
    | .ok content => .done (store.ofBytes content)
    | .error .noEntry => .done (.ok .builtin)
    | .error cause => .done (.error (.read store.confPath cause))

/-- The backups among the names in a directory, oldest first. -/
def backupNames (store : Store) (names : List Text) : List Text :=
  (names.filter store.backupStart.isPrefixOf).mergeSort Text.lessEq

/-- The paths of the backups, oldest first. There are none without a backup directory. -/
def listBackups (store : Store) : Script (Except StoreError (List Text)) :=
  (Script.list store.backupDir).bind fun
    | .ok names => .done (.ok ((store.backupNames names).map (Path.join store.backupDir)))
    | .error .noEntry => .done (.ok [])
    | .error cause => .done (.error (.read store.backupDir cause))

end Store

end SambaShares
