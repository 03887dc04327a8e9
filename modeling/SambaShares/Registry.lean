import SambaShares.Share.Basic
/-!
The shares of a document by name. Where a section is repeated, the registry holds the share of
its first block.
-/

namespace SambaShares

/-- The shares of a document, each name once, in the order of the file. -/
structure Registry where
  shares : List Share
  deriving DecidableEq, Repr

namespace Registry

/-- Of shares with the same name, only the first. -/
def firstOfEachName : List Share → List Share
  | [] => []
  | share :: rest => share :: (firstOfEachName rest).filter (·.name != share.name)

def ofDocument (document : Document) : Registry :=
  ⟨firstOfEachName (document.blocks.filterMap Share.ofBlock?)⟩

/-- The share of exactly this name. -/
def lookup (registry : Registry) (name : Text) : Option Share :=
  registry.shares.find? (·.name == name)

/-- Whether there is a share of exactly this name. -/
def contains (registry : Registry) (name : Text) : Bool := registry.shares.any (·.name == name)

def names (registry : Registry) : List Text := registry.shares.map (·.name)

/-- Whether a share other than the one named `except` uses the name, in whatever case. -/
def taken (registry : Registry) (name : Text) (except? : Option Text) : Bool :=
  registry.names.any fun other => some other != except? && Text.sameName other name

end Registry

end SambaShares
