import SambaShares.Settings.Decode
import SambaShares.Settings.Encode
import SambaShares.Settings.Mode
import SambaShares.Files
/-!
Finding, loading and saving the settings file.
-/

namespace SambaShares.Settings

/-- What the environment says about the user's own settings. -/
structure Home where
  /-- The directory for settings of all programs. -/
  xdg : Option Text := none
  home : Option Text := none

/-- The directory of the user's own settings. An empty directory for all programs counts as none;
an empty home does not. -/
def Home.configDir (home : Home) : Except SettingsError Text :=
  let base? := match home.xdg with
    | some (c :: rest) => some (c :: rest)
    | _ => home.home.map fun directory => Path.join directory ".config".toList
  match base? with
  | some base => .ok (Path.join base "smbshare".toList)
  | none => .error .noConfigDir

/-- The settings file of the whole machine. -/
def systemPath : Text := "/etc/smbshare/config.toml".toList

/-- The settings file to use: the one that is asked for, else the user's own if there is one,
else that of the machine. -/
def resolve (explicit? : Option Text) (home : Home) : Script Text :=
  match explicit? with
  | some path => .done path
  | none =>
    match home.configDir with
    | .error _ => .done systemPath
    | .ok directory =>
      let own := Path.join directory "config.toml".toList
      (Script.isFile own).bind fun there => .done (if there then own else systemPath)

def ofBytes (path : Text) (content : Bytes) : Except SettingsError Settings :=
  match Utf8.decode content with
  | .error _ => .error (.notText path)
  | .ok text =>
    match read? text with
    | some settings => .ok settings
    | none => .error .malformed

/-- Loads settings. Without a file every field has its default. -/
def load (path : Text) : Script (Except SettingsError Settings) :=
  (Script.read path).bind fun
    | .ok content => .done (ofBytes path content)
    | .error .noEntry => .done (.ok {})
    | .error cause => .done (.error (.io path cause))

/-- Makes the directory of a file, if the file stands in one. -/
def makeParent (path : Text) : Script (Except SettingsError Unit) :=
  match Path.parent? path with
  | none => .done (.ok ())
  | some [] => .done (.ok ())
  | some directory =>
    (Files.makeDirectories directory).bind fun
      | .ok () => .done (.ok ())
      | .error cause => .done (.error (.io directory cause))

/-- Saves settings. The directory of the file is made first, even if the settings cannot be
written. -/
def save (settings : Settings) (path : Text) : Script (Except SettingsError Unit) :=
  (makeParent path).andThen fun () =>
    match settings.write with
    | .error e => .done (.error e)
    | .ok text =>
      (Script.write path (Utf8.encode text)).bind fun
        | .ok () => .done (.ok ())
        | .error cause => .done (.error (.io path cause))

end SambaShares.Settings
