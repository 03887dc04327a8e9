import Std.Data.TreeMap
import SambaShares.Disk.Path
import SambaShares.Disk.Error
import SambaShares.Text.Utf8
/-!
The file system as a finite map from places to files and directories, and how a path leads to a
place. There are no links. What is kept here refuses nobody: who may not do something, or finds no
space for it, is refused by the machine.
-/

namespace SambaShares

/-- A place on the disk: the names on the way to it, the innermost first. The root is empty. -/
abbrev Place := List Text

inductive Node
  | file (content : Bytes) (mode : Nat)
  | directory
  deriving DecidableEq, Repr

/-- The file system, with the directory from which relative paths start. -/
structure Disk where
  nodes : Std.TreeMap Place Node := {}
  here : Place := []
  deriving Repr

namespace Disk

/-- What stands at a place. The root is always a directory. -/
def node? (disk : Disk) : Place → Option Node
  | [] => some .directory
  | name :: up => disk.nodes[name :: up]?

def put (disk : Disk) (place : Place) (node : Node) : Disk :=
  { disk with nodes := disk.nodes.insert place node }

def erase (disk : Disk) (place : Place) : Disk := { disk with nodes := disk.nodes.erase place }

theorem node?_put (disk : Disk) (place other : Place) (node : Node) :
    (disk.put place node).node? other =
      if other ≠ [] ∧ place = other then some node else disk.node? other := by
  cases other with
  | nil => simp [node?]
  | cons => simp [node?, put, Std.TreeMap.getElem?_insert]

theorem node?_erase (disk : Disk) (place other : Place) :
    (disk.erase place).node? other =
      if other ≠ [] ∧ place = other then none else disk.node? other := by
  cases other with
  | nil => simp [node?]
  | cons => simp [node?, erase, Std.TreeMap.getElem?_erase]

def namesIn (disk : Disk) (directory : Place) : List Text :=
  disk.nodes.keys.filterMap fun
    | name :: up => if up == directory then some name else none
    | [] => none

/-- How many bytes a name in a directory may have. -/
def longestName : Nat := 255

/-- How many bytes a path may have. -/
def longestPath : Nat := 4095

/-- Looks at a place. A name that no directory could hold is not looked for. -/
def lookup (disk : Disk) (place : Place) : Except IoError (Option Node) :=
  if longestName < Utf8.size (place.headD []) then .error .nameTooLong else .ok (disk.node? place)

/-- The next place on the way along a path. -/
def enter (disk : Disk) (place : Place) (name : Text) : Except IoError Place := do
  match ← disk.lookup place with
  | none => throw .noEntry
  | some (.file ..) => throw .notDirectory
  | some .directory =>
    if name == ['.'] then return place
    else if name == ['.', '.'] then return place.tail
    else return name :: place

/-- Whether a component of a path is a name, and not a dot or two. -/
def isName (component : Text) : Bool := component != ['.'] && component != ['.', '.']

/-- The place to which the components of a path lead. There is nothing to look up on the way if
they are names and lead straight into a directory. -/
def follow (disk : Disk) (start : Place) (components : List Text) : Except IoError Place :=
  let goal := components.reverse ++ start
  if components.all isName && disk.node? goal.tail == some .directory then .ok goal
  else components.foldlM disk.enter start

/-- Whatever stands on the disk stands in a directory, under a name that is not too long. -/
def IsClosed (disk : Disk) : Prop :=
  ∀ name up, (disk.node? (name :: up)).isSome →
    disk.node? up = some .directory ∧ Utf8.size name ≤ longestName

theorem IsClosed.lookup {disk : Disk} (closed : disk.IsClosed) {place : Place} {node : Node}
    (there : disk.node? place = some node) : disk.lookup place = .ok (some node) := by
  have fits : Utf8.size (place.headD []) ≤ longestName := by
    cases place with
    | nil => exact Nat.zero_le _
    | cons name up => exact (closed name up (by simp [there])).2
  rw [Disk.lookup, if_neg (by omega), there]

theorem IsClosed.outer {disk : Disk} (closed : disk.IsClosed) {place : Place} (inner : Place)
    (there : disk.node? (inner ++ place) = some .directory) :
    disk.node? place = some .directory := by
  induction inner with
  | nil => exact there
  | cons name up ih =>
    exact ih (closed name (up ++ place) (by rw [← List.cons_append, there]; rfl)).1

/-- The walk that `follow` spares leads to the same place. -/
theorem IsClosed.follow_eq_foldlM {disk : Disk} (closed : disk.IsClosed) (start : Place)
    (components : List Text) :
    disk.follow start components = components.foldlM disk.enter start := by
  simp only [follow]
  split
  next straight =>
    simp only [Bool.and_eq_true, List.all_eq_true, beq_iff_eq] at straight
    obtain ⟨names, there⟩ := straight
    induction components generalizing start with
    | nil => rfl
    | cons name rest ih =>
      have goal : (name :: rest).reverse ++ start = rest.reverse ++ name :: start := by simp
      rw [goal] at there ⊢
      have inside : disk.node? start = some .directory := by
        cases reversed : rest.reverse with
        | nil => simpa [reversed] using there
        | cons last before =>
          exact closed.outer (before ++ [name]) (by simpa [reversed] using there)
      have plain := names name List.mem_cons_self
      have step : disk.enter start name = .ok (name :: start) := by
        simp only [isName, bne_iff_ne, Bool.and_eq_true] at plain
        simp [enter, closed.lookup inside, bind, Except.bind, plain, pure, Except.pure]
      rw [List.foldlM_cons, step]
      exact ih (name :: start)
        (fun other member => names other (List.mem_cons_of_mem _ member)) there
  next => rfl

/-- The place that a path leads to. Something need not stand there, but everything on the way is a
directory. -/
def locate (disk : Disk) (path : Text) : Except IoError Place :=
  if path.contains '\x00' then .error .nulInPath
  else if longestPath < Utf8.size path then .error .nameTooLong
  else if path.isEmpty then .error .noEntry
  else disk.follow (if Path.isAbsolute path then [] else disk.here) (Path.components path)

/-- What a path leads to. A slash at the end of the path asks for a directory. -/
def find (disk : Disk) (path : Text) : Except IoError Node := do
  match ← disk.lookup (← disk.locate path) with
  | none => throw .noEntry
  | some (.file content mode) =>
    if Path.endsInSlash path then throw .notDirectory else return .file content mode
  | some .directory => return .directory

def contains (disk : Disk) (path : Text) : Bool := (disk.find path).isOk

def isDirectory (disk : Disk) (path : Text) : Bool :=
  match disk.find path with
  | .ok .directory => true
  | _ => false

def isFile (disk : Disk) (path : Text) : Bool :=
  match disk.find path with
  | .ok (.file ..) => true
  | _ => false

def read (disk : Disk) (path : Text) : Except IoError Bytes := do
  match ← disk.find path with
  | .file content _ => return content
  | .directory => throw .isDirectory

def list (disk : Disk) (path : Text) : Except IoError (List Text) := do
  let place ← disk.locate path
  match ← disk.lookup place with
  | none => throw .noEntry
  | some (.file ..) => throw .notDirectory
  | some .directory => return disk.namesIn place

/-- Makes a directory in one that exists. -/
def makeDirectory (disk : Disk) (path : Text) : Except IoError Disk := do
  let place ← disk.locate path
  match ← disk.lookup place with
  | some _ => throw .alreadyExists
  | none => return disk.put place .directory

/-- Whether a path ends in a name, and not in a dot or two. -/
def endsInName (path : Text) : Bool := (Path.components path).getLast?.any isName

/-- The permissions of a file after something was written to it: it no longer runs as its owner, nor
as its group if the group may run it. So it is for every process that may not keep these bits, which is
the right of the administrator only. -/
def modeAfter (content : Bytes) (mode : Nat) : Nat :=
  if content.isEmpty then mode
  else if mode &&& 0o010 = 0 then mode &&& 0o3777
  else mode &&& 0o1777

/-- Writes a file anew. It is made if it does not exist, and keeps its permissions to read and write
if it does. -/
def write (disk : Disk) (path : Text) (content : Bytes) : Except IoError Disk := do
  let place ← disk.locate path
  if Path.endsInSlash path then throw .isDirectory
  match ← disk.lookup place with
  | some .directory => throw .isDirectory
  | some (.file _ mode) => return disk.put place (.file content (modeAfter content mode))
  | none => return disk.put place (.file content 0o644)

/-- The first number, from `number` on, with which the name is not taken. No more than so many are
passed over. -/
def firstFree (start finish : Text) (taken : List Text) : Nat → Nat → Nat
  | 0, number => number
  | more + 1, number =>
    if taken.contains (Path.temporaryName start finish number) then
      firstFree start finish taken more (number + 1)
    else number

/-- A name for a temporary file that nothing in the directory has, if there is one. -/
def freshName (disk : Disk) (directory start finish : Text) : Text :=
  let taken := (disk.list directory).toOption.getD []
  Path.temporaryName start finish (firstFree start finish taken 999999 0)

/-- Makes an empty file with a new name in a directory, for its owner only. -/
def createFresh (disk : Disk) (directory start finish : Text) : Except IoError (Disk × Text) := do
  let inside := if directory.isEmpty then ['.'] else directory
  let path := Path.join inside (disk.freshName inside start finish)
  let place ← disk.locate path
  match ← disk.lookup place with
  | some _ => throw .alreadyExists
  | none => return (disk.put place (.file [] 0o600), path)

/-- The part of a number that permissions take: three digits for who may do what, and one before
them for how the file runs. -/
def permissions (mode : Nat) : Nat := mode &&& 0o7777

def setMode (disk : Disk) (path : Text) (mode : Nat) : Except IoError Disk := do
  let place ← disk.locate path
  match ← disk.lookup place with
  | some (.file content _) => return disk.put place (.file content (permissions mode))
  | some .directory => return disk
  | none => throw .noEntry

/-- Gives a file another name. A file that has this name is replaced, unless `keep` forbids it. -/
def rename (disk : Disk) (keep : Bool) (source target : Text) : Except IoError Disk := do
  let origin ← disk.locate source
  let goal ← disk.locate target
  if !endsInName target then throw (if keep then .alreadyExists else .busy)
  match ← disk.lookup origin, ← disk.lookup goal with
  | none, _ => throw .noEntry
  | some .directory, _ => throw .isDirectory
  | some (.file content mode), there =>
    if keep && there.isSome then throw .alreadyExists
    if Path.endsInSlash target then throw .notDirectory
    if there == some .directory then throw .isDirectory
    return (disk.erase origin).put goal (.file content mode)

def remove (disk : Disk) (path : Text) : Except IoError Disk := do
  let place ← disk.locate path
  match ← disk.lookup place with
  | none => throw .noEntry
  | some .directory => throw .isDirectory
  | some (.file ..) =>
    if Path.endsInSlash path then throw .notDirectory else return disk.erase place

end Disk

end SambaShares
