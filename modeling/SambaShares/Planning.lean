import SambaShares.Registry
import SambaShares.Share.Spec
import SambaShares.Share.Validation
import SambaShares.Document.Edit
/-!
What a request makes of a document. A plan checks the request in a fixed order, the first
failure is the answer, and gives the next document without writing anything. The disk enters
through a probe only, which says whether a path exists.
-/

namespace SambaShares

inductive Request
  | add (spec : ShareSpec)
  | update (old : Text) (spec : ShareSpec)
  | delete (name : Text)
  | setUsers (name : Text) (users : List Text)
  deriving DecidableEq, Repr

namespace Document

/-- The index of the block that the share of this name was read from. -/
def managedPosition (document : Document) (name : Text) : Except ShareError Nat :=
  if (Registry.ofDocument document).contains name then
    match document.position? name with
    | some index => .ok index
    | none => .error (.notFound name)
  else .error (.notFound name)

def checkPath (probe : Text → Bool) (path : Text) : Except ShareError Unit :=
  if path.isEmpty || !probe path then .error (.pathNotFound path) else .ok ()

/-- Checks that no share but the one named `except?`, and no section with a meaning of its own,
uses the name. -/
def checkFree (document : Document) (name : Text) (except? : Option Text) :
    Except ShareError Unit :=
  if isReserved name || (Registry.ofDocument document).taken name except? then
    .error (.nameConflict name)
  else .ok ()

/-- Adds a share at the end. The name is checked first, then the fields, then the path, and last
whether the name is free. -/
def addShare (probe : Text → Bool) (document : Document) (spec : ShareSpec) :
    Except ShareError Document := do
  checkName spec.name
  spec.checkFields
  checkPath probe spec.path
  document.checkFree spec.name none
  return document.push spec.toBlock

/-- Writes the share `old` anew in its place, perhaps under another name. The path is checked
last. -/
def updateShare (probe : Text → Bool) (document : Document) (old : Text) (spec : ShareSpec) :
    Except ShareError Document := do
  let index ← document.managedPosition old
  checkName spec.name
  spec.checkFields
  document.checkFree spec.name (some old)
  checkPath probe spec.path
  match document.blocks[index]? with
  | some block => return document.replace index (spec.renewBlock block)
  | none => throw (.notFound old)

def deleteShare (document : Document) (name : Text) : Except ShareError Document := do
  let index ← document.managedPosition name
  return document.remove index

def findShare (document : Document) (name : Text) : Except ShareError Share :=
  match (Registry.ofDocument document).lookup name with
  | some share => .ok share
  | none => .error (.notFound name)

/-- Writes a share anew with other users and its other fields as they are. -/
def setShareUsers (probe : Text → Bool) (document : Document) (name : Text) (users : List Text) :
    Except ShareError Document := do
  let share ← document.findShare name
  document.updateShare probe name { share.toSpec with validUsers := users }

def touchShare (probe : Text → Bool) (document : Document) (name : Text) :
    Except ShareError Document := do
  let share ← document.findShare name
  document.updateShare probe name share.toSpec

end Document

namespace Request

def plan (probe : Text → Bool) (document : Document) : Request → Except ShareError Document
  | add spec => document.addShare probe spec
  | update old spec => document.updateShare probe old spec
  | delete name => document.deleteShare name
  | setUsers name users => document.setShareUsers probe name users

/-- The only path whose existence the plan of a request can depend on. -/
def probedPath (document : Document) : Request → Text
  | add spec => spec.path
  | update _ spec => spec.path
  | delete _ => []
  | setUsers name _ =>
    match (Registry.ofDocument document).lookup name with
    | some share => share.path
    | none => []

/-- A plan asks the probe about one path only. -/
theorem plan_congr {probe other : Text → Bool} (document : Document) (request : Request)
    (same : probe (request.probedPath document) = other (request.probedPath document)) :
    request.plan probe document = request.plan other document := by
  have path : ∀ path, probe path = other path →
      Document.checkPath probe path = Document.checkPath other path := by
    intro path equal
    simp [Document.checkPath, equal]
  cases request with
  | add spec =>
    have equal := path spec.path same
    simp only [plan, Document.addShare, equal]
  | update old spec =>
    have equal := path spec.path same
    simp only [plan, Document.updateShare, equal]
  | delete name => rfl
  | setUsers name users =>
    simp only [plan, Document.setShareUsers, Document.findShare]
    cases found : (Registry.ofDocument document).lookup name with
    | none => rfl
    | some share =>
      simp only [probedPath, found] at same
      have equal := path share.path same
      simp only [Document.updateShare, Share.toSpec, bind, Except.bind, equal]

end Request

end SambaShares
