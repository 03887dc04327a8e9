import SambaShares.Settings.Basic
import SambaShares.Toml.Reader
/-!
Settings from a TOML file. Unknown keys are ignored and missing ones take their defaults. A
section may also be an array that holds its fields in order; a point in time in the place of a
section is a section without any of its fields.
-/

namespace SambaShares.Settings

open Toml

/-- The fields of a section by their place and their key. -/
def fields? : Item → Option (Nat → Text → Option Item)
  | .table _ entries => some fun _ key => Entries.get? entries key
  | .array items => some fun place _ => items[place]?
  | .tables elements => some fun place _ => elements[place]?.map (.table .header)
  | .moment => some fun _ _ => none
  | _ => none

/-- The value of a field, or its default if it is missing. -/
def orDefault {α : Type} (absent : α) (read : Item → Option α) : Option Item → Option α
  | none => some absent
  | some item => read item

def text? : Item → Option Text
  | .text value => some value
  | _ => none

def boolean? : Item → Option Bool
  | .boolean value => some value
  | _ => none

/-- A number that is not negative. -/
def count? : Item → Option Nat
  | .integer value => if 0 ≤ value then some value.toNat else none
  | _ => none

def texts? : Item → Option (List Text)
  | .array items => items.mapM text?
  | _ => none

def storage? (item : Item) : Option StorageSettings := do
  let field ← fields? item
  let absent : StorageSettings := {}
  let confPath ← orDefault absent.confPath text? (field 0 "conf_path".toList)
  let backupDir ← orDefault absent.backupDir text? (field 1 "backup_dir".toList)
  let maxBackups ← orDefault absent.maxBackups count? (field 2 "max_backups".toList)
  let fileMode ← orDefault absent.fileMode text? (field 3 "file_mode".toList)
  return { confPath, backupDir, maxBackups, fileMode }

def service? (item : Item) : Option ServiceSettings := do
  let field ← fields? item
  let absent : ServiceSettings := {}
  let units ← orDefault absent.units texts? (field 0 "units".toList)
  let useSudo ← orDefault absent.useSudo boolean? (field 1 "use_sudo".toList)
  let systemctlPath ← orDefault absent.systemctlPath text? (field 2 "systemctl_path".toList)
  let restartTimeoutSecs ←
    orDefault absent.restartTimeoutSecs count? (field 3 "restart_timeout_secs".toList)
  return { units, useSudo, systemctlPath, restartTimeoutSecs }

def logging? (item : Item) : Option LoggingSettings := do
  let field ← fields? item
  let absent : LoggingSettings := {}
  let level ← orDefault absent.level text? (field 0 "level".toList)
  return { level }

def ofEntries? (entries : Entries) : Option Settings := do
  let storage ← orDefault {} storage? (entries.get? "storage".toList)
  let service ← orDefault {} service? (entries.get? "service".toList)
  let logging ← orDefault {} logging? (entries.get? "logging".toList)
  return { storage, service, logging }

def read? (text : Text) : Option Settings := (Toml.parse? text).bind ofEntries?

end SambaShares.Settings
