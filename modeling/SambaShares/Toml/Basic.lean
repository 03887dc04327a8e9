import SambaShares.Text.Basic
/-!
The values of a TOML file. A table remembers how it was written, because that decides which later
lines may add to it.
-/

namespace SambaShares.Toml

/-- The first number that is too large for an integer. -/
def integerLimit : Nat := 0x8000000000000000

/-- How a table came to be. -/
inductive Origin
  /-- Written in braces; nothing may be added. -/
  | braces
  /-- Opened by its own header. -/
  | header
  /-- Needed by the header of a table inside it. -/
  | implied
  /-- Needed by a dotted key. -/
  | dotted
  deriving DecidableEq, Repr

/-- A value. Numbers with a fraction and points in time carry nothing, because no setting has
such a value. -/
inductive Item
  | text (value : Text)
  | integer (value : Int)
  | boolean (value : Bool)
  | fraction
  | moment
  | array (items : List Item)
  | table (origin : Origin) (entries : List (Text × Item))
  | tables (elements : List (List (Text × Item)))
  deriving Repr

abbrev Entries := List (Text × Item)

namespace Entries

def get? (entries : Entries) (key : Text) : Option Item :=
  (entries.find? (·.1 == key)).map (·.2)

/-- Gives a key a value in the place of its old one, or at the end. -/
def put (key : Text) (item : Item) : Entries → Entries
  | [] => [(key, item)]
  | (other, old) :: rest =>
    if other == key then (key, item) :: rest else (other, old) :: put key item rest

/-- Changes the table at the end of a path. Tables missing on the way are made, as a dotted key
or a header makes them. The change is told whether a dotted key made the table. Nothing may be
added to a table in braces, and a dotted key adds to tables made by dotted keys or headers of
inner tables only. -/
def change (byKey : Bool) (edit : Bool → Entries → Option Entries) :
    List Text → Bool → Entries → Option Entries
  | [], madeByKey, entries => edit madeByKey entries
  | key :: path, _, entries =>
    match entries.get? key with
    | none =>
      (change byKey edit path byKey []).map fun inner =>
        entries.put key (.table (if byKey then .dotted else .implied) inner)
    | some (.table .braces _) => none
    | some (.table origin inner) =>
      if byKey && origin == .header then none
      else (change byKey edit path (origin == .dotted) inner).map fun inner =>
        entries.put key (.table origin inner)
    | some (.tables elements) =>
      match elements.getLast? with
      | none => none
      | some last =>
        (change byKey edit path false last).map fun last =>
          entries.put key (.tables (elements.dropLast ++ [last]))
    | some _ => none

/-- Adds `path.key = item`. A key is given once. -/
def addValue (path : List Text) (key : Text) (item : Item) (entries : Entries) : Option Entries :=
  entries.change true (fun madeByKey inner =>
    if madeByKey == path.isEmpty then none
    else if (inner.get? key).isSome then none
    else some (inner.put key item)) path false

/-- Opens the table `path.key` by its header. Only a table that inner headers needed may exist
before. -/
def openTable (path : List Text) (key : Text) (entries : Entries) : Option Entries :=
  entries.change false (fun _ inner =>
    match inner.get? key with
    | none => some (inner.put key (.table .header []))
    | some (.table .implied found) => some (inner.put key (.table .header found))
    | some _ => none) path false

/-- Opens one more table of the list `path.key`. -/
def openElement (path : List Text) (key : Text) (entries : Entries) : Option Entries :=
  entries.change false (fun _ inner =>
    match inner.get? key with
    | none => some (inner.put key (.tables [[]]))
    | some (.tables elements) => some (inner.put key (.tables (elements ++ [[]])))
    | some _ => none) path false

end Entries

end SambaShares.Toml
