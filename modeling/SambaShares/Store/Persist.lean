import SambaShares.Store.Basic
/-!
Saving a new configuration without ever losing the old one. First the old document is written to
a backup under a name that was free; then the new one is written to a file of its own beside the
live file and takes its name in one step; only then are surplus backups removed.
-/

namespace SambaShares.Store

/-- How often a free name for a backup is looked for. -/
def nameAttempts : Nat := 16

/-- The end of a step that failed: its unfinished file is removed. -/
def giveUp {α : Type} (unfinished : Text) (e : StoreError) : Script (Except StoreError α) :=
  (Script.remove unfinished).bind fun _ => .done (.error e)

/-- Gives a finished backup its name. Where a name is taken, the next microsecond is tried. -/
def nameBackup (store : Store) (unfinished : Text) :
    Nat → Nat → Script (Except StoreError Text)
  | 0, _ =>
    giveUp unfinished (.backup store.backupDir (.other "no free backup file name available".toList))
  | attempts + 1, time =>
    (Script.rename true unfinished (store.backupPath time)).bind fun
      | .ok () => .done (.ok (store.backupPath time))
      | .error .alreadyExists => nameBackup store unfinished attempts (time + 1)
      | .error cause => giveUp unfinished (.backup (store.backupPath time) cause)

def writeBackup (store : Store) (old : Document) : Script (Except StoreError Text) :=
  (Files.makeDirectories store.backupDir).bind fun
    | .error cause => .done (.error (.backup store.backupDir cause))
    | .ok () =>
      (Script.createFresh store.backupDir ".smbshare-backup.".toList []).bind fun
        | .error cause => .done (.error (.backup store.backupDir cause))
        | .ok unfinished =>
          (Script.write unfinished (Utf8.encode old.render)).bind fun
            | .error cause => giveUp unfinished (.backup unfinished cause)
            | .ok () => Script.clock.bind (nameBackup store unfinished nameAttempts)

/-- Puts a document in the place of the live file. -/
def writeLive (store : Store) (new : Document) : Script (Except StoreError Unit) :=
  (Script.createFresh store.liveDir ".smbshare.".toList ".tmp".toList).bind fun
    | .error cause => .done (.error (.write store.confPath cause))
    | .ok unfinished =>
      (Script.setMode unfinished store.fileMode).bind fun
        | .error cause => giveUp unfinished (.write store.confPath cause)
        | .ok () =>
          (Script.write unfinished (Utf8.encode new.render)).bind fun
            | .error cause => giveUp unfinished (.write store.confPath cause)
            | .ok () =>
              (Script.rename false unfinished store.confPath).bind fun
                | .error cause => giveUp unfinished (.write store.confPath cause)
                | .ok () => .done (.ok ())

/-- Removes files as far as that is possible. -/
def removeAll : List Text → Script Unit
  | [] => .done ()
  | path :: rest => (Script.remove path).bind fun _ => removeAll rest

/-- Removes the oldest backups beyond those that are kept. That some cannot be listed or removed
does not matter. -/
def prune (store : Store) : Script Unit :=
  if store.maxBackups = 0 then .done ()
  else store.listBackups.bind fun
    | .error _ => .done ()
    | .ok backups => removeAll (backups.take (backups.length - store.maxBackups))

/-- Backs up the old document, replaces the live file by the new one, and prunes. The result is
the path of the backup. -/
def persist (store : Store) (old new : Document) : Script (Except StoreError Text) :=
  (store.writeBackup old).andThen fun backup =>
    (store.writeLive new).andThen fun () =>
      store.prune.bind fun () => .done (.ok backup)

end SambaShares.Store
