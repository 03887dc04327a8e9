import SambaShares.Invocation.Options
import SambaShares.Settings.Files
import SambaShares.Share.Basic
/-!
What a user asks the program for: an action on the shares, the service or the settings, and the
options that every action has. Such options may stand before the action or after it; what stands
after it counts more, and both count more than the environment.
-/

namespace SambaShares

/-- The changes to a share that a user names. What is not named keeps its value. -/
structure ShareEdit where
  name? : Option Text := none
  path? : Option Text := none
  writable? : Option Bool := none
  comment? : Option Text := none
  /-- The new users, if any are named. -/
  users : List Text := []
  /-- Whether the share is to be open to all users. -/
  clearUsers : Bool := false
  deriving DecidableEq, Repr

/-- The request that asks for a share with some changes. -/
def ShareEdit.apply (edit : ShareEdit) (spec : ShareSpec) : ShareSpec where
  name := edit.name?.getD spec.name
  path := edit.path?.getD spec.path
  writable := edit.writable?.getD spec.writable
  comment := edit.comment?.getD spec.comment
  validUsers :=
    if edit.clearUsers then []
    else if edit.users.isEmpty then spec.validUsers
    else edit.users

inductive Task
  | list
  | describe (name : Text)
  | add (spec : ShareSpec)
  | update (old : Text) (edit : ShareEdit)
  | delete (name : Text)
  | users (name : Text)
  | setUsers (name : Text) (users : List Text)
  | status
  | restart
  | backups
  deriving DecidableEq, Repr

/-- What the program is asked to do: to print its settings, which needs no manager, or a task for
one. -/
inductive Action
  | config
  | manage (task : Task)
  deriving DecidableEq, Repr

inductive Verb
  | list
  | describe
  | add
  | update
  | delete
  | users
  | setUsers
  | status
  | restart
  | backups
  | config
  | help
  deriving DecidableEq, Repr

namespace Verb

def all : List Verb :=
  [list, describe, add, update, delete, users, setUsers, status, restart, backups, config, help]

def name : Verb → Text
  | list => "list".toList
  | describe => "show".toList
  | add => "add".toList
  | update => "update".toList
  | delete => "delete".toList
  | users => "users".toList
  | setUsers => "set-users".toList
  | status => "status".toList
  | restart => "restart".toList
  | backups => "backups".toList
  | config => "config".toList
  | help => "help".toList

def ofName? (name : Text) : Option Verb := all.find? (·.name == name)

@[simp] theorem ofName?_name (verb : Verb) : ofName? verb.name = some verb := by
  cases verb <;> decide

end Verb

structure Environment where
  /-- The settings file to use. -/
  config : Option Text := none
  /-- The configuration to manage. -/
  conf : Option Text := none
  home : Settings.Home := {}

structure Invocation where
  action : Action
  config : Option Text := none
  conf : Option Text := none
  /-- Whether programs are to read the output. -/
  json : Bool := false
  deriving DecidableEq, Repr

namespace Invocation

/-- An option that holds a path, which is never empty. -/
def pathOption (name : Text) : OptionRule := ⟨name, .value { accepts := (!·.isEmpty) }⟩

/-- An option that holds any text. -/
def textOption (name : Text) : OptionRule := ⟨name, .value {}⟩

/-- An option that names a user, and may be given for each of them. -/
def userOption : OptionRule := ⟨"user".toList, .value { repeats := true }⟩

def truth? (value : Text) : Option Bool :=
  if value == "true".toList then some true
  else if value == "false".toList then some false
  else none

def commonOptions : List OptionRule :=
  [pathOption "config".toList, pathOption "conf".toList, ⟨"json".toList, .flag⟩,
    ⟨"help".toList, .ends 'h' .help⟩]

def outerRules : ArgumentRules where
  options := commonOptions ++ [⟨"version".toList, .ends 'V' .version⟩]

/-- The options of an action that others do not have. -/
def ownOptions : Verb → List OptionRule
  | .add => [⟨"read-only".toList, .flag⟩, textOption "comment".toList, userOption]
  | .update =>
    [textOption "name".toList, textOption "path".toList,
      ⟨"writable".toList, .value { accepts := fun value => (truth? value).isSome }⟩,
      textOption "comment".toList, userOption, ⟨"clear-users".toList, .flag⟩]
  | _ => []

def innerRules (verb : Verb) : ArgumentRules where
  options := ownOptions verb ++ commonOptions
  most := match verb with
    | .describe => some 1
    | .add => some 2
    | .update => some 1
    | .delete => some 1
    | .users => some 1
    | .setUsers => none
    | _ => some 0

/-- The task that the arguments after its word describe. -/
def task? (verb : Verb) (reading : Reading) : Option Task :=
  match verb, reading.others with
  | .list, [] => some .list
  | .describe, [name] => some (.describe name)
  | .add, [name, path] =>
    some (.add {
      name
      path
      writable := !reading.has "read-only".toList
      comment := (reading.value? "comment".toList).getD []
      validUsers := reading.values "user".toList })
  | .update, [old] =>
    if reading.has "user".toList && reading.has "clear-users".toList then none
    else some (.update old {
      name? := reading.value? "name".toList
      path? := reading.value? "path".toList
      writable? := (reading.value? "writable".toList).bind truth?
      comment? := reading.value? "comment".toList
      users := reading.values "user".toList
      clearUsers := reading.has "clear-users".toList })
  | .delete, [name] => some (.delete name)
  | .users, [name] => some (.users name)
  | .setUsers, name :: users => some (.setUsers name users)
  | .status, [] => some .status
  | .restart, [] => some .restart
  | .backups, [] => some .backups
  | _, _ => none

def action? (verb : Verb) (reading : Reading) : Option Action :=
  if verb = .config then some .config else (task? verb reading).map .manage

/-- Why a question for help is no run: it is answered if it names no action or one that is there. -/
def helpOn : List Text → Refusal
  | [] => .help
  | [name] => if (Verb.ofName? name).isSome then .help else .misuse
  | _ => .misuse

/-- Reads up to the word that names the action. -/
def readOuter (reading : Reading) : List Text → Except Refusal (Reading × Verb × List Text)
  | [] => .error .misuse
  | argument :: rest =>
    match reading.awaitsValue, Verb.ofName? argument with
    | false, some .help => .error (helpOn rest)
    | false, some verb => .ok (reading, verb, rest)
    | _, _ => do readOuter (← outerRules.takeNext reading argument) rest

/-- A path from the environment is looked at wherever an option does not stand, and must not be
empty there. -/
def checkEnvironment (environment : Environment) (reading : Reading) : Except Refusal Unit :=
  if (!reading.has "config".toList && environment.config == some []) ||
      (!reading.has "conf".toList && environment.conf == some []) then .error .misuse
  else .ok ()

def read (environment : Environment) (arguments : List Text) : Except Refusal Invocation := do
  let (outer, verb, rest) ← readOuter {} arguments
  let inner ← (innerRules verb).read {} rest
  checkEnvironment environment inner
  match action? verb inner with
  | none => throw .misuse
  | some action =>
    let outer ← outer.settle
    checkEnvironment environment outer
    let path (name : Text) (absent : Option Text) : Option Text :=
      inner.value? name <|> outer.value? name <|> absent
    return {
      action
      config := path "config".toList environment.config
      conf := path "conf".toList environment.conf
      json := inner.has "json".toList || outer.has "json".toList }

end Invocation

end SambaShares
