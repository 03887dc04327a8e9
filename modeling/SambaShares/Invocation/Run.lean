import SambaShares.Invocation.Basic
import SambaShares.Invocation.Report
/-!
A run of the program: the settings are found and loaded, then the action is carried out by a
manager that they describe, and its outcome is reported.
-/

namespace SambaShares

namespace Invocation

/-- The manager that the settings describe, for the configuration that is asked for. -/
def manager (conf? : Option Text) (settings : Settings) : Except SettingsError Manager :=
  let storage := match conf? with
    | some confPath => { settings.storage with confPath }
    | none => settings.storage
  (Store.ofSettings storage).map fun store =>
    { store, service := .ofSettings settings.service,
      restartLimit := settings.service.restartTimeout }

def change (manager : Manager) (json : Bool) (request : Request) : Script Output :=
  (manager.change request).bind fun result => .done (Output.ofChange json result)

/-- The request that an edit of a share leads to. Without such a share, the manager will say so. -/
def request (old : Text) (edit : ShareEdit) (share? : Option Share) : Request :=
  .update old (edit.apply (match share? with
    | some share => share.toSpec
    | none => { name := old, path := [] }))

def carryOut (manager : Manager) (json : Bool) : Task → Script Output
  | .list =>
    manager.shares.bind fun result => .done (Output.ofResult (Output.ofShares json) result)
  | .describe name =>
    (manager.share? name).bind fun result => .done (Output.ofResult (fun
      | some share => Output.ofShares json [share]
      | none => Output.failure [ShareError.message (.notFound name)]) result)
  | .add spec => change manager json (.add spec)
  | .update old edit =>
    (manager.share? old).bind fun
      | .ok share? => change manager json (request old edit share?)
      | .error e => .done (Output.failure e.chain)
  | .delete name => change manager json (.delete name)
  | .users name =>
    (manager.users name).bind fun result => .done (Output.ofResult (Output.ofTexts json) result)
  | .setUsers name users => change manager json (.setUsers name users)
  | .status => manager.status.bind fun states => .done (Output.ofStates json states)
  | .restart => manager.restart.bind fun restarted => .done (Output.ofRestart json restarted)
  | .backups =>
    manager.backups.bind fun result => .done (Output.ofResult (Output.ofTexts json) result)

def runWith (invocation : Invocation) (path : Text) (settings : Settings) : Script Output :=
  match invocation.action with
  | .config => .done (Output.ofSettings invocation.json path settings)
  | .manage task =>
    match manager invocation.conf settings with
    | .ok manager => carryOut manager invocation.json task
    | .error e => .done (Output.failure ["invalid [storage] settings".toList, e.message])

def run (invocation : Invocation) (home : Settings.Home) : Script Output :=
  (Settings.resolve invocation.config home).bind fun path =>
    (Settings.load path).bind fun
      | .ok settings => invocation.runWith path settings
      | .error e => .done (Output.failure [e.message])

def program (environment : Environment) (arguments : List Text) : Script Output :=
  match read environment arguments with
  | .ok invocation => invocation.run environment.home
  | .error refusal => .done (Output.ofRefusal refusal)

end Invocation

end SambaShares
