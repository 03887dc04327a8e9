import SambaShares.Proofs.Manager.Outcome
import SambaShares.Proofs.Planning.Session
/-!
The manager as the planner. The planner knows no disk: it has the text of the live file, or none, and
makes the next text of it. The manager reads the file anew for each request and writes it anew, and
but for the paths that exist nothing else makes a difference, whatever is edited by hand in between.
-/

namespace SambaShares

/-- What a live file is read as; the built-in configuration stands in for a missing one. -/
def Document.ofLive : Option Text → Document
  | some text => .parse text
  | none => .builtin

theorem Document.wellFormed_ofLive (live : Option Text) : (ofLive live).WellFormed := by
  cases live with
  | none => exact (canonical_parse builtinText).toWellFormed
  | some text => exact (canonical_parse text).toWellFormed

/-- What is read at the path of a live file. -/
def Disk.ofLive : Option Text → Except IoError Bytes
  | some text => .ok (Utf8.encode text)
  | none => .error .noEntry

/-- What readers are told of the shares. -/
structure Answers where
  list : Except ChangeError (List Share)
  get : Text → Except ChangeError (Option Share)
  users : Text → Except ChangeError (List Text)

def Registry.answers (registry : Registry) : Answers where
  list := .ok registry.shares
  get name := .ok (registry.lookup name)
  users name := .ok (match registry.lookup name with
    | some share => share.validUsers
    | none => [])

/-- What happens to the live file: it is edited or removed by hand, or there is a request at a time
when some paths exist and others do not. -/
inductive Event
  | edit (live : Option Text)
  | request (request : Request) (probe : Text → Bool)

/-- What there is after an event. -/
structure Planned where
  verdict : Except ShareError Unit
  live : Option Text
  registry : Registry

/-- The planner on the text of the live file. The shares are those of the planned document, not of
its text. -/
def Event.planned (live : Option Text) : Event → Planned
  | .edit edited => ⟨.ok (), edited, .ofDocument (.ofLive edited)⟩
  | .request wanted probe =>
    match wanted.plan probe (.ofLive live) with
    | .ok next => ⟨.ok (), some next.render, .ofDocument next⟩
    | .error cause => ⟨.error cause, live, .ofDocument (.ofLive live)⟩

theorem Event.planned_of_ok {live : Option Text} {wanted : Request} {probe : Text → Bool}
    {next : Document} (planned : wanted.plan probe (.ofLive live) = .ok next) :
    (request wanted probe).planned live = ⟨.ok (), some next.render, .ofDocument next⟩ := by
  simp only [Event.planned, planned]

theorem Event.planned_of_error {live : Option Text} {wanted : Request} {probe : Text → Bool}
    {cause : ShareError} (failed : wanted.plan probe (.ofLive live) = .error cause) :
    (request wanted probe).planned live =
      ⟨.error cause, live, .ofDocument (.ofLive live)⟩ := by
  simp only [Event.planned, failed]

/-- One event after the other, each on the text that the one before has left. -/
def Event.plannedAll (live : Option Text) : List Event → List Planned
  | [] => []
  | event :: rest => event.planned live :: plannedAll (event.planned live).live rest

/-- What is seen of a manager after an event: the verdict, what is read at the path of the live file,
and what readers are told. -/
structure Seen where
  verdict : Option (Except ShareError Unit)
  live : Except IoError Bytes
  answers : Answers

def Planned.seen (planned : Planned) : Seen :=
  ⟨some planned.verdict, Disk.ofLive planned.live, planned.registry.answers⟩

namespace Manager

variable {manager : Manager} {machine after : Machine} {request : Request} {live : Option Text}

def answers (manager : Manager) (machine : Machine) : Answers where
  list := (manager.shares.run machine).2
  get name := ((manager.share? name).run machine).2
  users name := ((manager.users name).run machine).2

/-- Whether a path is found. -/
def found (manager : Manager) (machine : Machine) (path : Text) : Bool :=
  ((manager.probe path).run machine).2

/-- Whether a change is in effect, or why it was refused. There is no verdict if the live file could
not be read or saved. -/
def verdict? : Except ChangeError Text → Option (Except ShareError Unit)
  | .ok _ => some (.ok ())
  | .error (.notReconciled ..) => some (.ok ())
  | .error (.rejected cause) => some (.error cause)
  | .error (.readFailed _) => none
  | .error (.backupFailed _) => none
  | .error (.writeFailed _) => none

/-- The store does not fail a request: the live file can be read, and what the planner makes of it can
be saved. -/
structure Serves (manager : Manager) (request : Request) (machine : Machine) : Prop where
  loads : ∃ current, (manager.load.run machine).2 = .ok current
  saves : ∀ current next, (manager.load.run machine).2 = .ok current →
    request.plan (manager.found machine) current = .ok next →
      ∃ backup, ((manager.store.persist current next).run machine).2 = .ok backup

/-- An event on the machine. Whoever edits the live file may change the machine in other ways. -/
inductive Happens (manager : Manager) (before : Machine) :
    Event → Option (Except ShareError Unit) → Machine → Prop
  | edit {edited : Option Text} {after : Machine} (formed : after.disk.WellFormed)
    (shown : after.disk.read manager.store.confPath = Disk.ofLive edited) :
    Happens manager before (.edit edited) (some (.ok ())) after
  | request {request : Request} (serves : manager.Serves request before) :
    Happens manager before (.request request (manager.found before))
      (verdict? ((manager.change request).run before).2) ((manager.change request).run before).1

/-- Events one after the other, with what is seen after each of them. -/
inductive Observed (manager : Manager) : Machine → List Event → List Seen → Prop
  | done (machine : Machine) : Observed manager machine [] []
  | next {before after : Machine} {event : Event} {verdict : Option (Except ShareError Unit)}
    {events : List Event} {seen : List Seen} (happens : manager.Happens before event verdict after)
    (later : Observed manager after events seen) :
    Observed manager before (event :: events)
      (⟨verdict, after.disk.read manager.store.confPath, manager.answers after⟩ :: seen)

theorem load_of_read (shown : machine.disk.read manager.store.confPath = Disk.ofLive live) :
    (manager.load.run machine).2 = .ok (.ofLive live) := by
  unfold load
  rw [Script.run_bind, Script.run_done, Store.load_run, shown]
  cases live with
  | none => rfl
  | some text =>
    simp only [Disk.ofLive, Store.ofBytes, Utf8.decode_encode]
    rfl

theorem plan_run (manager : Manager) (machine : Machine) (current : Document) (request : Request) :
    ((manager.plan current request).run machine).2 =
      (request.plan (manager.found machine) current).mapError .rejected := by
  have same := @Request.plan_congr (fun _ => manager.found machine (request.probedPath current))
    (manager.found machine) current request rfl
  unfold plan
  rw [Script.run_bind, Script.run_done]
  exact congrArg (Except.mapError ChangeError.rejected) same

theorem plan_run_eq_ok_iff {current next : Document} :
    ((manager.plan current request).run machine).2 = .ok next ↔
      request.plan (manager.found machine) current = .ok next := by
  rw [plan_run]
  cases request.plan (manager.found machine) current <;> simp [Except.mapError]

theorem plan_run_eq_rejected_iff {current : Document} {cause : ShareError} :
    ((manager.plan current request).run machine).2 = .error (.rejected cause) ↔
      request.plan (manager.found machine) current = .error cause := by
  rw [plan_run]
  cases request.plan (manager.found machine) current <;> simp [Except.mapError]

theorem answers_of_load {document : Document} (loaded : (manager.load.run machine).2 = .ok document) :
    manager.answers machine = (Registry.ofDocument document).answers := by
  simp only [answers, shares, share?, users, registry, Script.run_bind, Script.run_done, loaded]
  rfl

theorem answers_of_render {document : Document} (formed : document.WellFormed)
    (shown : machine.disk.read manager.store.confPath = .ok (Utf8.encode document.render)) :
    manager.answers machine = (Registry.ofDocument document).answers := by
  have loaded : (manager.load.run machine).2 = .ok (.parse document.render) :=
    @load_of_read manager machine (some document.render) shown
  rw [answers_of_load loaded, Registry.ofDocument_parse_render formed]

theorem verdict?_reported (backup : Text) (restarted : Except RestartError Unit) :
    verdict? (reported backup restarted) = some (.ok ()) := by
  cases restarted <;> rfl

theorem eq_rejected_of_verdict? {result : Except ChangeError Text} {cause : ShareError}
    (refused : verdict? result = some (.error cause)) : result = .error (.rejected cause) := by
  rcases result with e | backup
  · cases e <;> cases refused
    rfl
  · cases refused

theorem verdict?_ofStore (cause : StoreError) : verdict? (.error (.ofStore cause)) = none := by
  cases cause <;> rfl

theorem wellFormed_change (manager : Manager) (formed : machine.disk.WellFormed)
    (request : Request) : ((manager.change request).run machine).1.disk.WellFormed :=
  (manager.change request).wellFormed_of_mem_states formed (Script.run_mem_states _ _)

/-- There is a verdict just if the store does not fail. -/
theorem serves_iff (looks : ∀ path, (manager.probe path).OnlyAsks Effect.looks) :
    manager.Serves request machine ↔ verdict? ((manager.change request).run machine).2 ≠ none := by
  have changes := changes_of_change looks machine request
  generalize ((manager.change request).run machine).2 = result at changes
  cases changes with
  | unread failed =>
    refine ⟨fun serves => ?_, fun kept => absurd rfl kept⟩
    obtain ⟨current, loaded⟩ := serves.loads
    rw [failed] at loaded
    cases loaded
  | @refused current cause loaded failed =>
    refine ⟨fun _ => Option.some_ne_none _, fun _ => ⟨⟨current, loaded⟩, ?_⟩⟩
    intro other next same planned
    cases loaded.symm.trans same
    cases (plan_run_eq_rejected_iff.1 failed).symm.trans planned
  | @unsaved current next cause loaded planned failed =>
    rw [verdict?_ofStore]
    refine ⟨fun serves => ?_, fun kept => absurd rfl kept⟩
    obtain ⟨backup, done⟩ := serves.saves current next loaded (plan_run_eq_ok_iff.1 planned)
    rw [failed] at done
    cases done
  | @saved current next backup loaded planned done =>
    rw [verdict?_reported]
    refine ⟨fun _ => Option.some_ne_none _, fun _ => ⟨⟨current, loaded⟩, ?_⟩⟩
    intro other after same wanted
    cases loaded.symm.trans same
    cases (plan_run_eq_ok_iff.1 planned).symm.trans wanted
    exact ⟨backup, done⟩

/-- A change of a loaded document that ends with a verdict does what the plan says. -/
theorem change_of_verdict (stamped : ∀ time, '/' ∉ manager.store.stamp time)
    (looks : ∀ path, (manager.probe path).OnlyAsks Effect.looks)
    (formed : machine.disk.WellFormed) {current : Document} {verdict : Except ShareError Unit}
    (loaded : (manager.load.run machine).2 = .ok current)
    (ended : verdict? ((manager.change request).run machine).2 = some verdict) :
    let disk := ((manager.change request).run machine).1.disk
    match request.plan (manager.found machine) current with
    | .ok next => verdict = .ok () ∧
        disk.read manager.store.confPath = .ok (Utf8.encode next.render)
    | .error cause => verdict = .error cause ∧ disk = machine.disk := by
  intro disk
  have changes : manager.Changes request machine disk _ _ := changes_of_change looks machine request
  clear_value disk
  generalize ((manager.change request).run machine).2 = result at changes ended
  cases changes with
  | unread failed => cases ended
  | unsaved =>
    rw [verdict?_ofStore] at ended
    cases ended
  | refused same failed left =>
    cases loaded.symm.trans same
    rw [plan_run_eq_rejected_iff.1 failed]
    exact ⟨(Option.some.inj ended).symm, left⟩
  | saved same planned done left =>
    cases loaded.symm.trans same
    rw [verdict?_reported] at ended
    rw [plan_run_eq_ok_iff.1 planned, left]
    exact ⟨(Option.some.inj ended).symm, (Store.live_persist stamped formed done).read⟩

/-- One event of the manager is one of the planner. -/
theorem Happens.seen_eq {event : Event} {verdict : Option (Except ShareError Unit)}
    (happens : manager.Happens machine event verdict after)
    (stamped : ∀ time, '/' ∉ manager.store.stamp time)
    (looks : ∀ path, (manager.probe path).OnlyAsks Effect.looks)
    (formed : machine.disk.WellFormed)
    (shown : machine.disk.read manager.store.confPath = Disk.ofLive live) :
    after.disk.WellFormed ∧
      (⟨verdict, after.disk.read manager.store.confPath, manager.answers after⟩ : Seen) =
        (event.planned live).seen := by
  cases happens with
  | edit formed shown =>
    refine ⟨formed, ?_⟩
    rw [answers_of_load (load_of_read shown), shown]
    rfl
  | @request request serves =>
    refine ⟨manager.wellFormed_change formed request, ?_⟩
    obtain ⟨verdict, ended⟩ := Option.ne_none_iff_exists'.1 ((serves_iff looks).1 serves)
    have does := change_of_verdict stamped looks formed (load_of_read shown) ended
    rw [ended]
    cases planned : request.plan (manager.found machine) (.ofLive live) with
    | ok next =>
      simp only [planned] at does
      obtain ⟨rfl, written⟩ := does
      have nextFormed := (Change.of_plan planned).wellFormed (Document.wellFormed_ofLive live)
      rw [answers_of_render nextFormed written, written, Event.planned_of_ok planned]
      rfl
    | error cause =>
      simp only [planned] at does
      obtain ⟨rfl, same⟩ := does
      have still := shown
      rw [← same] at still
      rw [answers_of_load (load_of_read still), still, Event.planned_of_error planned]
      rfl

/-- Whatever is requested and edited, as long as the store does not fail, the manager answers as the
planner does, and the live file and the answers to readers are those of the planned documents. -/
theorem Observed.as_planned (stamped : ∀ time, '/' ∉ manager.store.stamp time)
    (looks : ∀ path, (manager.probe path).OnlyAsks Effect.looks)
    (formed : machine.disk.WellFormed)
    (shown : machine.disk.read manager.store.confPath = Disk.ofLive live)
    {events : List Event} {seen : List Seen} (observed : manager.Observed machine events seen) :
    seen = (Event.plannedAll live events).map Planned.seen := by
  induction observed generalizing live with
  | done => rfl
  | next happens later ih =>
    obtain ⟨formedAfter, same⟩ := happens.seen_eq stamped looks formed shown
    rw [Event.plannedAll, List.map_cons, same, ih formedAfter (congrArg Seen.live same)]

/-- The first share comes into a file that was not there; later the last one goes from a file without
a line feed at its end, and the file is empty. -/
theorem Observed.as_planned_emptied :
    let manager : Manager :=
      { store := { confPath := "/smb.conf".toList, backupDir := "/b".toList, maxBackups := 0 }
        service := ⟨[], []⟩ }
    let machine : Machine := { disk := Disk.put {} ["b".toList] .directory }
    let spec : ShareSpec := { name := "m".toList, path := "/b".toList }
    let text : Text := "[a]\npath = /b".toList
    let edited : Machine :=
      { disk := machine.disk.put ["smb.conf".toList] (.file (Utf8.encode text) 0o644) }
    let events : List Event := [.request (.add spec) (manager.found machine), .edit (some text),
      .request (.delete "a".toList) (manager.found edited)]
    ∃ seen, manager.Observed machine events seen ∧
      seen = (Event.plannedAll none events).map Planned.seen ∧
        (Event.plannedAll none events).getLast?.map Planned.live = some (some []) := by
  intro manager machine spec text edited events
  have added : manager.Serves (.add spec) machine :=
    (serves_iff onlyAsks_probe).2 (by decide +kernel)
  have formed : edited.disk.WellFormed := by decide +kernel
  have shown : edited.disk.read manager.store.confPath = Disk.ofLive (some text) := by
    decide +kernel
  have deleted : manager.Serves (.delete "a".toList) edited :=
    (serves_iff onlyAsks_probe).2 (by decide +kernel)
  have start : machine.disk.WellFormed := by decide +kernel
  have absent : machine.disk.read manager.store.confPath = .error .noEntry := by decide +kernel
  have last : (Event.plannedAll none events).getLast?.map Planned.live = some (some []) := by
    decide +kernel
  have observed := Observed.next (.request added) (.next (.edit formed shown)
    (.next (.request deleted) (.done _)))
  exact ⟨_, observed,
    @Observed.as_planned manager machine none Stamp.whole_text onlyAsks_probe start absent events _
      observed, last⟩

end Manager

end SambaShares
