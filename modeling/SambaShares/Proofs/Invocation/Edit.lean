import SambaShares.Proofs.Invocation.Setup
import SambaShares.Proofs.Manager.Serial
import SambaShares.Proofs.Planning.ReadBack
/-!
What a change to a share leaves of the fields that it does not name. The old values are read, brought
into the form in which they are written, and read again. Path and write access come through this as they
are; a comment with white space inside its quotes loses the white space, and users who are listed twice
are listed once.
-/

namespace SambaShares

/-- What is kept of a share by an edit, field by field. -/
structure ShareEdit.Keeps (edit : ShareEdit) (before after : Share) : Prop where
  path : edit.path? = none → after.path = before.path
  writable : edit.writable? = none → after.writable = before.writable
  comment : edit.comment? = none →
    (after.comment = before.comment ↔ before.comment.trim = before.comment)
  users : edit.users = [] → edit.clearUsers = false →
    (after.validUsers = before.validUsers ↔ before.validUsers.Nodup)

theorem Share.IsRead.keeps {share : Share} (read : share.IsRead) (edit : ShareEdit) :
    edit.Keeps share (edit.apply share.toSpec).share where
  path unnamed := by
    simp only [ShareSpec.share, ShareEdit.apply, Share.toSpec, unnamed, Option.getD_none]
    exact read.path
  writable unnamed := by
    simp only [ShareSpec.share, ShareEdit.apply, Share.toSpec, unnamed, Option.getD_none]
  comment unnamed := by
    have same : (edit.apply share.toSpec).comment = share.comment := by
      simp only [ShareEdit.apply, Share.toSpec, unnamed, Option.getD_none]
    have normal := @ShareSpec.normalizedComment_eq_iff (edit.apply share.toSpec)
    rw [same] at normal
    exact normal read.comment
  users unnamed kept := by
    have same : (edit.apply share.toSpec).validUsers = share.validUsers := by
      simp [ShareEdit.apply, Share.toSpec, unnamed, kept]
    have isUser : ∀ user ∈ share.validUsers, IsUser user := by
      intro user member
      exact IsUser.of_word (read.users user member).1 (read.users user member).2
    rw [← same] at isUser ⊢
    exact normalizeUsers_eq_self_iff.trans (and_iff_right isUser)

namespace Document

variable {probe : Text → Bool} {document next : Document}

theorem keeps_of_updateShare (formed : document.WellFormed) {old : Text} {before : Share}
    (found : (Registry.ofDocument document).lookup old = some before) {edit : ShareEdit}
    (planned : document.updateShare probe old (edit.apply before.toSpec) = .ok next) :
    ∃ after, (Registry.ofDocument next).lookup (edit.name?.getD old) = some after ∧
      edit.Keeps before after := by
  obtain ⟨_, block, _, split, read⟩ := Registry.lookup_ofDocument_eq_some_iff.1 found
  have named : before.name = old := (Share.managed_of_ofBlock?_eq_some read).2.trans split.named
  have written := lookup_of_updateShare formed planned
  rw [Registry.ofDocument_parse_render ((Change.of_updateShare planned).wellFormed formed)] at written
  refine ⟨(edit.apply before.toSpec).share, ?_, (Share.isRead_of_ofBlock? read).keeps edit⟩
  rw [← named]
  exact written

/-- To set the users of a share is an edit that names nothing else. -/
theorem setShareUsers_eq_edit {before : Share} {name : Text}
    (found : document.findShare name = .ok before) (users : List Text) :
    let edit : ShareEdit := { users, clearUsers := users.isEmpty }
    document.setShareUsers probe name users =
      document.updateShare probe name (edit.apply before.toSpec) := by
  intro edit
  have same : edit.apply before.toSpec = { before.toSpec with validUsers := users } := by
    cases users <;> rfl
  rw [same, setShareUsers, found]
  rfl

end Document

theorem Output.status_ofChange (json : Bool) (result : Except ChangeError Text) :
    (ofChange json result).status = match result with
      | .ok _ => 0
      | .error (.notReconciled ..) => 2
      | .error _ => 1 := by
  cases result with
  | ok backup => rfl
  | error e =>
    cases e with
    | notReconciled backup cause => cases json <;> rfl
    | _ => rfl

theorem Output.verdict?_of_status_ne_one {json : Bool} {result : Except ChangeError Text}
    (ended : (ofChange json result).status ≠ 1) : Manager.verdict? result = some (.ok ()) := by
  rw [status_ofChange] at ended
  cases result with
  | ok backup => rfl
  | error e =>
    cases e with
    | notReconciled backup cause => rfl
    | _ => exact absurd rfl ended

namespace Invocation

variable {manager : Manager} {machine : Machine} {json : Bool} {old : Text} {edit : ShareEdit}

theorem carryOut_update_run (manager : Manager) (json : Bool) (old : Text) (edit : ShareEdit)
    (machine : Machine) :
    (carryOut manager json (.update old edit)).run machine =
      match ((manager.share? old).run machine).2 with
      | .ok share? => (change manager json (request old edit share?)).run machine
      | .error e => (machine, Output.failure e.chain) := by
  unfold carryOut
  rw [Script.run_bind, (manager.onlyAsks_share? old).run_of_looks]
  cases ((manager.share? old).run machine).2 <;> rfl

theorem change_run (manager : Manager) (json : Bool) (request : Request) (machine : Machine) :
    (change manager json request).run machine = (((manager.change request).run machine).1,
      Output.ofChange json ((manager.change request).run machine).2) := by
  unfold change
  rw [Script.run_bind, Script.run_done]

/-- An update that does not fail has found the share, and keeps of it what it does not name. -/
theorem keeps_of_carryOut (stamped : ∀ time, '/' ∉ manager.store.stamp time)
    (looks : ∀ path, (manager.probe path).OnlyAsks Effect.looks)
    (formed : machine.disk.WellFormed)
    (ended : ((carryOut manager json (.update old edit)).run machine).2.status ≠ 1) :
    ∃ before after, ((manager.share? old).run machine).2 = .ok (some before) ∧
      ((manager.share? (edit.name?.getD old)).run
        ((carryOut manager json (.update old edit)).run machine).1).2 = .ok (some after) ∧
      edit.Keeps before after := by
  rw [carryOut_update_run] at ended ⊢
  cases loaded : (manager.load.run machine).2 with
  | error e =>
    have failed : ((manager.share? old).run machine).2 = .error e := by
      simp only [Manager.share?, Manager.registry, Script.run_bind, Script.run_done, loaded]
      rfl
    simp only [failed] at ended
    exact absurd rfl ended
  | ok current =>
    have shown : ∀ name, ((manager.share? name).run machine).2 =
        .ok ((Registry.ofDocument current).lookup name) := fun name =>
      congrFun (congrArg Answers.get (Manager.answers_of_load loaded)) name
    simp only [shown, change_run] at ended ⊢
    generalize wanted : request old edit ((Registry.ofDocument current).lookup old) = asked at ended ⊢
    have does := Manager.change_of_verdict stamped looks formed loaded
      (Output.verdict?_of_status_ne_one ended)
    cases planned : asked.plan (manager.found machine) current with
    | error cause =>
      simp only [planned] at does
      cases does.1
    | ok next =>
      simp only [planned] at does
      subst wanted
      have currentFormed := Manager.wellFormed_of_load loaded
      have nextFormed := (Change.of_plan planned).wellFormed currentFormed
      have answers := Manager.answers_of_render nextFormed does.2
      cases found : (Registry.ofDocument current).lookup old with
      | none =>
        obtain ⟨managed, -, -, -, before, block, after, split, -⟩ :=
          Document.updateShare_eq_ok_iff.1 planned
        have there : (Registry.ofDocument current).contains old = true :=
          Registry.contains_ofDocument_iff.2 ⟨managed, before, block, after, split⟩
        rw [Registry.contains_eq_isSome_lookup, found] at there
        cases there
      | some before =>
        rw [found] at planned answers
        obtain ⟨after, written, keeps⟩ := Document.keeps_of_updateShare currentFormed found planned
        refine ⟨before, after, rfl, ?_, keeps⟩
        rw [← written]
        exact congrFun (congrArg Answers.get answers) _

/-- Whether the users of a share are set or a share is updated from the command line: what was not
named keeps its value, but for a comment with white space at its ends and users who are repeated. -/
theorem keeps_unnamed (text : Text) (environment : Environment) (arguments : List Text)
    (machine : Machine) (formed : machine.disk.WellFormed) :
    (∀ (document next : Document) (probe : Text → Bool) (name : Text) (users : List Text),
      Session (.parse text) document →
      document.setShareUsers probe name users = .ok next →
      let edit : ShareEdit := { users, clearUsers := users.isEmpty }
      ∃ before after, (Registry.ofDocument document).lookup name = some before ∧
        (Registry.ofDocument (.parse next.render)).lookup name = some after ∧
        edit.Keeps before after) ∧
    ∀ (invocation : Invocation) (old : Text) (edit : ShareEdit),
      read environment arguments = .ok invocation → invocation.action = .manage (.update old edit) →
      let run := (program environment arguments).run machine
      run.2.status ≠ 1 →
      ∃ (manager : Manager) (before after : Share),
        invocation.manager? environment.home machine = some manager ∧
        ((manager.share? old).run machine).2 = .ok (some before) ∧
        ((manager.share? (edit.name?.getD old)).run run.1).2 = .ok (some after) ∧
        edit.Keeps before after := by
  constructor
  · intro document next probe name users session planned edit
    have documentFormed := session.wellFormed (Document.canonical_parse text).toWellFormed
    obtain ⟨_, block, _, before, split, read, -⟩ := Document.setShareUsers_eq_ok_iff.1 planned
    have found : document.findShare name = .ok before :=
      Document.findShare_eq_ok_iff.2 ⟨_, block, _, split, read⟩
    rw [Document.setShareUsers_eq_edit found users] at planned
    have shown := Registry.lookup_ofDocument_eq_some_iff.2 ⟨_, block, _, split, read⟩
    obtain ⟨after, written, keeps⟩ := Document.keeps_of_updateShare documentFormed shown planned
    refine ⟨before, after, shown, ?_, keeps⟩
    rw [Registry.ofDocument_parse_render ((Change.of_updateShare planned).wellFormed documentFormed)]
    exact written
  · intro invocation old edit understood asks run ended
    have start : run = (invocation.run environment.home).run machine := by
      simp only [run, program, understood]
    cases ready : invocation.manager? environment.home machine with
    | none => exact absurd (start ▸ (run_of_manager?_eq_none asks ready).2) ended
    | some manager =>
      obtain ⟨stamped, looks⟩ := whole_of_manager?_eq_some ready
      rw [start, run_of_manager?_eq_some asks ready] at ended ⊢
      obtain ⟨before, after, kept⟩ := keeps_of_carryOut stamped looks formed ended
      exact ⟨manager, before, after, rfl, kept⟩

/-- A share gets other users, or another name; its comment has a quote in it and its users are named
once. -/
theorem keeps_unnamed_quoted :
    let text : Text := "[m]\npath = /srv\ncomment = \"a \" b\"\nvalid users = eve %S bob".toList
    let spec : ShareSpec :=
      ⟨"m".toList, "/srv".toList, false, "a \" b".toList, ["bob".toList]⟩
    let next : Document := ⟨[], [.plain "m".toList spec.settingLines], false⟩
    let environment : Environment := { conf := some "/smb.conf".toList }
    let arguments := ["update".toList, "m".toList, "--name".toList, "n".toList]
    let machine : Machine :=
      { disk := (Disk.put {} ["srv".toList] .directory).put ["smb.conf".toList]
          (.file (Utf8.encode text) 0o644)
        course := fun _ _ => .ends { status := .exited 0 } 5 }
    let run := (Invocation.program environment arguments).run machine
    (∃ before after, (Registry.ofDocument (.parse text)).lookup "m".toList = some before ∧
      (Registry.ofDocument (.parse next.render)).lookup "m".toList = some after ∧
      ShareEdit.Keeps { users := ["bob".toList] } before after) ∧
    ∃ (manager : Manager) (before after : Share),
      ((manager.share? "m".toList).run machine).2 = .ok (some before) ∧
      ((manager.share? "n".toList).run run.1).2 = .ok (some after) ∧
      ShareEdit.Keeps { name? := some "n".toList } before after := by
  intro text spec next environment arguments machine run
  let invocation : Invocation :=
    ⟨.manage (.update "m".toList { name? := some "n".toList }), none, environment.conf, false⟩
  have planned : (Document.parse text).setShareUsers (fun _ => true) "m".toList ["bob".toList] =
      .ok next := by decide +kernel
  have formed : machine.disk.WellFormed := by decide +kernel
  have understood : read environment arguments = .ok invocation := by decide +kernel
  have ended : run.2.status ≠ 1 := by decide +kernel
  obtain ⟨sets, updates⟩ := keeps_unnamed text environment arguments machine formed
  obtain ⟨manager, before, after, -, kept⟩ := updates invocation "m".toList _ understood rfl ended
  exact ⟨sets _ next _ "m".toList ["bob".toList] .start planned, manager, before, after, kept⟩

/-- White space inside the quotes of a comment is lost when the users are set, and of a user who is
listed twice one is lost when the share gets another name. -/
theorem unnamed_not_kept :
    let text : Text := "[m]\npath = /srv\ncomment = \" hello \"\nvalid users = eve eve".toList
    let document : Document := .parse text
    let read (name : Text) (next : Document) := (Registry.ofDocument (.parse next.render)).lookup name
    let before : Share :=
      { name := "m".toList, path := "/srv".toList, comment := " hello ".toList,
        validUsers := ["eve".toList, "eve".toList] }
    let renamed := ShareEdit.apply { name? := some "n".toList } before.toSpec
    read "m".toList document = some before ∧
      (document.setShareUsers (fun _ => true) "m".toList ["bob".toList]).map (read "m".toList) =
        .ok (some { before with comment := "hello".toList, validUsers := ["bob".toList] }) ∧
      (document.updateShare (fun _ => true) "m".toList renamed).map (read "n".toList) =
        .ok (some { before with name := "n".toList, comment := "hello".toList,
                                validUsers := ["eve".toList] }) := by
  decide +kernel

end Invocation

end SambaShares
