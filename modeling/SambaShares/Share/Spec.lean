import SambaShares.Share.Basic
/-!
The form in which a request is written to the file: a fixed order of settings, the comment
without the quotes and white space that reading would strip, and each user once.
-/

namespace SambaShares

/-- The users without white space around them, without empty names and the placeholder, each at
its first place only. -/
def normalizeUsers (users : List Text) : List Text :=
  users.foldl (fun kept user =>
    let name := user.trim
    if name.isEmpty || name == placeholderUser || kept.contains name then kept
    else kept ++ [name]) []

namespace ShareSpec

/-- The comment as it is written and read back. -/
def normalizedComment (spec : ShareSpec) : Text :=
  spec.comment.strip fun c => c == '"' || isBlank c

def normalizedUsers (spec : ShareSpec) : List Text := normalizeUsers spec.validUsers

def settingLine (setting : Setting) (value : Text) : Text :=
  "   ".toList ++ setting.key ++ " = ".toList ++ value

/-- The lines of the share after its header. -/
def settingLines (spec : ShareSpec) : List Text :=
  [settingLine .path spec.path,
    settingLine .writeable (if spec.writable then "Yes".toList else "No".toList),
    settingLine .createMask "0777".toList,
    settingLine .directoryMask "0777".toList,
    settingLine .guest "no".toList,
    (settingLine .comment spec.normalizedComment).trimEnd] ++
  if spec.normalizedUsers.isEmpty then []
  else [settingLine .validUsers ([' '].intercalate spec.normalizedUsers)]

def toBlock (spec : ShareSpec) : Block := .plain spec.name spec.settingLines

/-- The block of a share in the place of an older one: the blank lines that closed the older
share and the kept part of its trailer follow the settings. -/
def renewBlock (spec : ShareSpec) (old : Block) : Block :=
  .plain spec.name (spec.settingLines ++ List.replicate old.blankTail [] ++ old.keptOnUpdate)

end ShareSpec

end SambaShares
