import SambaShares.Text.Quoted
import SambaShares.Disk.Error
import SambaShares.Duration
/-!
The settings of the share manager itself: where files lie, how many backups are kept, and how the
file server is restarted. Every field has a default, so a machine works without any settings.
-/

namespace SambaShares

/-- Where the configuration and its backups lie. -/
structure StorageSettings where
  confPath : Text := "/etc/samba/smb.conf".toList
  backupDir : Text := "/etc/samba/backups".toList
  /-- How many backups are kept; 0 keeps all. -/
  maxBackups : Nat := 20
  /-- The permission bits of the configuration, in octal. -/
  fileMode : Text := "0644".toList
  deriving DecidableEq, Repr

structure ServiceSettings where
  units : List Text := ["smbd".toList, "nmbd".toList]
  useSudo : Bool := false
  systemctlPath : Text := "systemctl".toList
  restartTimeoutSecs : Nat := 30
  deriving DecidableEq, Repr

structure LoggingSettings where
  level : Text := "info".toList
  deriving DecidableEq, Repr

structure Settings where
  storage : StorageSettings := {}
  service : ServiceSettings := {}
  logging : LoggingSettings := {}
  deriving DecidableEq, Repr

def ServiceSettings.restartTimeout (settings : ServiceSettings) : Duration :=
  .ofSeconds settings.restartTimeoutSecs

/-- Why settings cannot be found, read, written or used. -/
inductive SettingsError
  | noConfigDir
  | io (path : Text) (cause : IoError)
  | notText (path : Text)
  | malformed
  | unwritable
  | invalidMode (mode : Text)
  deriving DecidableEq, Repr

def SettingsError.message : SettingsError → Text
  | noConfigDir => "could not determine platform config directory".toList
  | io path cause => "I/O error accessing config at ".toList ++ path ++ ": ".toList ++ cause.message
  | notText path =>
    "I/O error accessing config at ".toList ++ path ++
      ": stream did not contain valid UTF-8".toList
  | malformed => "failed to parse config TOML: the text is not valid settings\n".toList
  | unwritable => "failed to serialize config: a number is out of range".toList
  | invalidMode mode => "invalid value for storage.file_mode: ".toList ++ mode.quoted

end SambaShares
