import SambaShares.Document.Extent
/-!
Shares as they are reported, and the requests that describe one. Reading a share takes every
setting of its block into account; where a key is repeated, the last one counts.
-/

namespace SambaShares

structure Share where
  name : Text
  path : Text := []
  writable : Bool := false
  guest : Bool := false
  comment : Text := []
  validUsers : List Text := []
  deriving DecidableEq, Repr

/-- What a caller asks a share to be. Guest access cannot be asked for. -/
structure ShareSpec where
  name : Text
  path : Text
  writable : Bool := true
  comment : Text := []
  validUsers : List Text := []
  deriving DecidableEq, Repr

/-- The token that stands for the name of the share. It is no user, so it is left out of every
list of users. -/
def placeholderUser : Text := "%S".toList

namespace Share

/-- The users that the value of `valid users` names. -/
def usersOf (value : Text) : List Text := value.words.filter (· != placeholderUser)

/-- The share after one more setting. -/
def apply (share : Share) : Text × Text → Share
  | (key, value) =>
    match Setting.ofKey? key with
    | some .path => { share with path := value }
    | some .writeable => { share with writable := value.isOn }
    | some .writable => { share with writable := value.isOn }
    | some .guest => { share with guest := value.isOn }
    | some .comment => { share with comment := value.strip (· == '"') }
    | some .validUsers => { share with validUsers := usersOf value }
    | some .createMask => share
    | some .directoryMask => share
    | none => share

def ofDirectives (name : Text) (directives : List (Text × Text)) : Share :=
  directives.foldl apply { name }

/-- The share of a block, unless its section has a meaning of its own. -/
def ofBlock? (block : Block) : Option Share :=
  if block.isReserved then none else some (ofDirectives block.name block.directives)

/-- The request that asks for the share as it is. -/
def toSpec (share : Share) : ShareSpec :=
  ⟨share.name, share.path, share.writable, share.comment, share.validUsers⟩

end Share

end SambaShares
