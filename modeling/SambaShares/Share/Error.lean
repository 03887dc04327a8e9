import SambaShares.Share.Basic
import SambaShares.Text.Quoted
/-!
Why a request is refused. Nothing has been written when one of these arises.
-/

namespace SambaShares

inductive NameFault
  | empty
  | blank
  | forbidden
  deriving DecidableEq, Repr

def NameFault.rule : NameFault → Text
  | empty => "must not be empty".toList
  | blank => "must not contain whitespace".toList
  | forbidden => "must not contain any of / \\ : * ? \" < > | [ ]".toList

/-- Why a request is refused. -/
inductive ShareError
  | invalidName (name : Text) (fault : NameFault)
  | brokenPath (path : Text)
  | brokenComment (comment : Text)
  | blankInUser (user : Text)
  | pathNotFound (path : Text)
  | nameConflict (name : Text)
  | notFound (name : Text)
  deriving DecidableEq, Repr

namespace ShareError

/-- The part of the request that the error is about. -/
def field : ShareError → Text
  | invalidName .. => "name".toList
  | brokenPath _ => "path".toList
  | brokenComment _ => "comment".toList
  | blankInUser _ => "valid users".toList
  | pathNotFound _ => "path".toList
  | nameConflict _ => "name".toList
  | notFound _ => "name".toList

/-- The class of the error, a fixed word for programs. -/
def kind : ShareError → Text
  | invalidName .. => "InvalidName".toList
  | brokenPath _ => "InvalidField".toList
  | brokenComment _ => "InvalidField".toList
  | blankInUser _ => "InvalidField".toList
  | pathNotFound _ => "PathNotFound".toList
  | nameConflict _ => "NameConflict".toList
  | notFound _ => "NotFound".toList

/-- The message about a field with an unusable value. -/
def invalidField (field value rule : Text) : Text :=
  "invalid ".toList ++ field ++ [' '] ++ value.quoted ++ ": ".toList ++ rule

def message : ShareError → Text
  | invalidName name fault => invalidField "share name".toList name fault.rule
  | brokenPath path => invalidField "path".toList path "must be a single line".toList
  | brokenComment comment => invalidField "comment".toList comment "must be a single line".toList
  | blankInUser user =>
    invalidField "valid users".toList user "user names must not contain whitespace".toList
  | pathNotFound path => "path ".toList ++ path.quoted ++ " does not exist".toList
  | nameConflict name => "share ".toList ++ name.quoted ++ " already exists".toList
  | notFound name => "share ".toList ++ name.quoted ++ " not found".toList

end ShareError

end SambaShares
