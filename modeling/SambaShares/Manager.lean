import SambaShares.Planning
import SambaShares.Store.Persist
import SambaShares.Service.Control
/-!
The share manager. A change is one run of: read the live file, plan, save, restart the service. The
file is read anew each time, so a hand edit between two changes is seen by the second one. A
restart that fails does not undo the change.
-/

namespace SambaShares

/-- Why a change was not made, or not made fully. -/
inductive ChangeError
  /-- The request was refused; nothing was written. -/
  | rejected (cause : ShareError)
  | readFailed (cause : StoreError)
  | backupFailed (cause : StoreError)
  | writeFailed (cause : StoreError)
  /-- The new file is in place, but the service does not use it yet. -/
  | notReconciled (backup : Text) (cause : RestartError)
  deriving DecidableEq, Repr

namespace ChangeError

def ofStore : StoreError → ChangeError
  | .read path cause => readFailed (.read path cause)
  | .notUtf8 path offset => readFailed (.notUtf8 path offset)
  | .backup path cause => backupFailed (.backup path cause)
  | .write path cause => writeFailed (.write path cause)

/-- Whether the new file is in place despite the error. -/
def isCommitted : ChangeError → Bool
  | notReconciled .. => true
  | _ => false

/-- The class of the error, a fixed word for programs. -/
def kind : ChangeError → Text
  | rejected cause => cause.kind
  | readFailed _ => "ReadFailed".toList
  | backupFailed _ => "BackupFailed".toList
  | writeFailed _ => "WriteFailed".toList
  | notReconciled .. => "AppliedButNotReconciled".toList

def message : ChangeError → Text
  | rejected cause => cause.message
  | readFailed cause => "could not read the share configuration: ".toList ++ cause.message
  | backupFailed cause =>
    "backup failed, configuration left unchanged: ".toList ++ cause.message
  | writeFailed cause => "write failed, configuration left unchanged: ".toList ++ cause.message
  | notReconciled _ cause =>
    "configuration saved but the file-sharing service needs a manual restart: ".toList ++
      cause.message

/-- The message and then those of the causes, from the outermost inward. -/
def chain : ChangeError → List Text
  | readFailed cause => message (readFailed cause) :: cause.chain
  | backupFailed cause => message (backupFailed cause) :: cause.chain
  | writeFailed cause => message (writeFailed cause) :: cause.chain
  | e => [e.message]

end ChangeError

/-- A share manager: its files, its service, the bound on a restart, and how it finds out whether
the path of a share exists. -/
structure Manager where
  store : Store
  service : Service
  restartLimit : Duration := .ofSeconds 30
  probe : Text → Script Bool := Script.probe

namespace Manager

def saved (script : Script (Except StoreError Text)) : Script (Except ChangeError Text) :=
  script.bind fun result => .done (result.mapError ChangeError.ofStore)

/-- Restarts the service after a change that left its old state in `backup`. -/
def reconcile (manager : Manager) (backup : Text) : Script (Except ChangeError Text) :=
  (manager.service.restartWithin manager.restartLimit).bind fun
    | .ok () => .done (.ok backup)
    | .error cause => .done (.error (.notReconciled backup cause))

def load (manager : Manager) : Script (Except ChangeError Document) :=
  manager.store.load.bind fun result => .done (result.mapError ChangeError.ofStore)

/-- The document that a request makes of the live one. -/
def plan (manager : Manager) (document : Document) (request : Request) :
    Script (Except ChangeError Document) :=
  (manager.probe (request.probedPath document)).bind fun found =>
    .done ((request.plan (fun _ => found) document).mapError .rejected)

/-- Carries out a request. The result is the path of the backup that holds the document as it was
before. -/
def change (manager : Manager) (request : Request) : Script (Except ChangeError Text) :=
  manager.load.andThen fun current =>
    (manager.plan current request).andThen fun next =>
      (saved (manager.store.persist current next)).andThen manager.reconcile

def registry (manager : Manager) : Script (Except ChangeError Registry) :=
  manager.load.bind fun result => .done (result.map Registry.ofDocument)

def shares (manager : Manager) : Script (Except ChangeError (List Share)) :=
  manager.registry.bind fun result => .done (result.map (·.shares))

def share? (manager : Manager) (name : Text) : Script (Except ChangeError (Option Share)) :=
  manager.registry.bind fun result => .done (result.map (·.lookup name))

/-- The users of the share of a name; none if it is open to all or does not exist. -/
def users (manager : Manager) (name : Text) : Script (Except ChangeError (List Text)) :=
  manager.registry.bind fun result => .done (result.map fun registry =>
    match registry.lookup name with
    | some share => share.validUsers
    | none => [])

def backups (manager : Manager) : Script (Except ChangeError (List Text)) :=
  manager.store.listBackups.bind fun result => .done (result.mapError ChangeError.ofStore)

def status (manager : Manager) : Script (List (Text × UnitState)) := manager.service.status

/-- Restarts the service by itself, and tells whether that succeeded. -/
def restart (manager : Manager) : Script Bool :=
  (manager.service.restartWithin manager.restartLimit).bind fun result => .done result.isOk

/-- Carries out requests in the order in which they come to their turn. -/
def changeAll (manager : Manager) : List Request → Script (List (Except ChangeError Text))
  | [] => .done []
  | request :: rest =>
    (manager.change request).bind fun result =>
      (manager.changeAll rest).bind fun results => .done (result :: results)

end Manager

end SambaShares
