import SambaShares.Document.Basic
/-!
Which lines of a block belong to its share. A block owns its leading run of blank lines,
indented lines and settings; the first line at the left margin that is none of these starts the
trailer, which is kept as far as possible when the share is written anew or removed.
-/

namespace SambaShares

/-- The settings of a share that this library reads or writes. -/
inductive Setting
  | path
  | writeable
  | writable
  | createMask
  | directoryMask
  | guest
  | comment
  | validUsers
  deriving DecidableEq, Repr

namespace Setting

def key : Setting → Text
  | path => "path".toList
  | writeable => "writeable".toList
  | writable => "writable".toList
  | createMask => "create mask".toList
  | directoryMask => "directory mask".toList
  | guest => "public".toList
  | comment => "comment".toList
  | validUsers => "valid users".toList

def all : List Setting :=
  [path, writeable, writable, createMask, directoryMask, guest, comment, validUsers]

/-- The setting with a key. Keys are compared exactly. -/
def ofKey? (key : Text) : Option Setting := all.find? (·.key == key)

@[simp] theorem ofKey?_key (setting : Setting) : ofKey? setting.key = some setting := by
  cases setting <;> decide

end Setting

namespace Text

/-- Whether a line closes the extent that a share owns. -/
def closesExtent (line : Text) : Bool :=
  !line.isBlankText && line.head? != some ' ' && line.head? != some '\t' &&
    line.directive?.isNone

/-- Whether a line gives one of the settings of a share. -/
def isManaged (line : Text) : Bool :=
  match line.directive? with
  | some (key, _) => (Setting.ofKey? key).isSome
  | none => false

/-- Free text at the left margin: not blank, not indented, no header and no setting. -/
def isFree (line : Text) : Bool := line.closesExtent && line.header?.isNone

end Text

namespace Block

/-- The lines that belong to the share. -/
def owned (block : Block) : List Text := block.lines.takeWhile (!·.closesExtent)

/-- The lines after those of the share. -/
def trailer (block : Block) : List Text := block.lines.dropWhile (!·.closesExtent)

/-- The trailer as it is kept when the share is written anew. -/
def keptOnUpdate (block : Block) : List Text := block.trailer.filter (!·.isManaged)

/-- The trailer as it is kept when the share is removed, so that no setting moves into the
section before it. -/
def keptOnDelete (block : Block) : List Text := block.trailer.filter (·.directive?.isNone)

/-- How many blank lines close the part that the share owns. -/
def blankTail (block : Block) : Nat := (block.owned.reverse.takeWhile (·.isBlankText)).length

@[simp] theorem owned_append_trailer (block : Block) :
    block.owned ++ block.trailer = block.lines := List.takeWhile_append_dropWhile

end Block

end SambaShares
