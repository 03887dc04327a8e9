import SambaShares.Settings.Basic
import SambaShares.Toml.Writer
/-!
Settings as the text of a TOML file: every field of every section, in a fixed order.
-/

namespace SambaShares.Settings

open Toml

def render (settings : Settings) : Text :=
  "[storage]\n".toList ++
  pairLine "conf_path".toList (writeString settings.storage.confPath) ++
  pairLine "backup_dir".toList (writeString settings.storage.backupDir) ++
  pairLine "max_backups".toList (Text.ofNat settings.storage.maxBackups) ++
  pairLine "file_mode".toList (writeString settings.storage.fileMode) ++
  "\n[service]\n".toList ++
  pairLine "units".toList (writeStrings settings.service.units) ++
  pairLine "use_sudo".toList (writeBool settings.service.useSudo) ++
  pairLine "systemctl_path".toList (writeString settings.service.systemctlPath) ++
  pairLine "restart_timeout_secs".toList (Text.ofNat settings.service.restartTimeoutSecs) ++
  "\n[logging]\n".toList ++
  pairLine "level".toList (writeString settings.logging.level)

/-- The text of a settings file, unless a number does not fit into it. -/
def write (settings : Settings) : Except SettingsError Text :=
  if settings.storage.maxBackups < integerLimit &&
      settings.service.restartTimeoutSecs < integerLimit then .ok settings.render
  else .error .unwritable

end SambaShares.Settings
