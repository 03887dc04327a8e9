import SambaShares.Proofs.Manager.Turns
/-!
What comes of calls that meet. The changes end as they would have ended one after the other, in the
order in which they got the lock; who lists the shares is told what one of them has left, if there was a
way to the live file before them; and of several callers who want to add a share of the same name one
succeeds.
-/

namespace SambaShares

namespace Meeting

open Relation (ReflTransGen)

variable {Changer Lister : Type} {manager : Manager} {requests : Changer → Request}
variable {start : Machine} {meeting : Meeting Changer Lister}

/-- The changes as if they had been carried out one after the other. -/
structure Serial (meeting : Meeting Changer Lister) (manager : Manager)
    (requests : Changer → Request) (start : Machine) : Prop where
  /-- Each change ends as in its turn; only the last of them, which holds the lock, may not have
  ended yet. -/
  results : ∃ served, meeting.turns = served ++ meeting.holder.toList ∧
    List.Forall₂ (fun caller result => meeting.change caller = .ended result) served
      (manager.results (served.map requests) start)
  /-- Each call gets the lock once. -/
  once : meeting.turns.Nodup
  called : ∀ caller, caller ∈ meeting.turns ↔ meeting.change caller ≠ .waiting
  /-- The lock does not stay with a call that has ended. -/
  released : (∀ caller rest, meeting.change caller ≠ .working rest) → meeting.holder = none
  /-- The disk with the live file and the backups, the clock and the programs that were started. -/
  machine : meeting.holder = none →
    meeting.machine = manager.afterAll (meeting.turns.map requests) start
  /-- All requests that the changes have made, with the contents they have written and the programs
  they have started. -/
  asked : meeting.holder = none →
    meeting.asked = (manager.changeAll (meeting.turns.map requests)).asked start

theorem InTurn.serial {earlier : List Changer}
    (inTurn : meeting.InTurn manager requests start earlier) :
    meeting.Serial manager requests start where
  results := ⟨earlier, inTurn.turns, inTurn.ended⟩
  once := inTurn.once
  called caller := by
    constructor
    · intro member waits
      rw [inTurn.turns, List.mem_append] at member
      rcases member with served | holds
      · exact inTurn.not_mem_of_waiting waits served
      · obtain ⟨rest, works⟩ := inTurn.exists_working (Option.mem_toList.1 holds)
        rw [waits] at works
        cases works
    · intro started
      by_contra absent
      exact started (inTurn.waiting caller absent)
  released idle := by
    cases holder : meeting.holder with
    | none => rfl
    | some caller =>
      obtain ⟨rest, works⟩ := inTurn.exists_working holder
      exact absurd works (idle caller rest)
  machine free := by
    obtain ⟨turns, machine, -⟩ := inTurn.onTurn_of_free free
    rw [machine, turns]
  asked free := by
    obtain ⟨turns, -, asked⟩ := inTurn.onTurn_of_free free
    rw [asked, turns]

/-- All callers want to add a share of one name, up to case, to a live file without it, nothing else is
wrong with what they want, and the store does not fail. -/
structure Rivals (meeting : Meeting Changer Lister) (manager : Manager)
    (requests : Changer → Request) (start : Machine) (specs : Changer → ShareSpec) (name : Text) :
    Prop where
  adds : ∀ caller, requests caller = .add (specs caller)
  rival : ∀ caller, (specs caller).Rival name
  free : ∃ current, (manager.load.run start).2 = .ok current ∧
    (Registry.ofDocument current).taken name none = false
  serves : manager.ServesInTurn specs meeting.turns start
  ended : ∀ caller, ∃ result, meeting.change caller = .ended result

/-- One caller has added its share, the others were told that the name is in use. -/
def OneAdded (meeting : Meeting Changer Lister) (specs : Changer → ShareSpec) : Prop :=
  ∃ first, (∃ result, meeting.change first = .ended result ∧
      Manager.verdict? result = some (.ok ())) ∧
    ∀ other, other ≠ first →
      meeting.change other = .ended (.error (.rejected (.nameConflict (specs other).name)))

theorem Serial.oneAdded (serial : meeting.Serial manager requests start)
    (stamped : ∀ time, '/' ∉ manager.store.stamp time)
    (looks : ∀ path, (manager.probe path).OnlyAsks Effect.looks)
    (formed : start.disk.WellFormed) {specs : Changer → ShareSpec} {name : Text}
    (rivals : meeting.Rivals manager requests start specs name) (someone : Changer) :
    meeting.OneAdded specs := by
  have idle : ∀ caller rest, meeting.change caller ≠ .working rest := by
    intro caller rest works
    obtain ⟨result, ended⟩ := rivals.ended caller
    rw [works] at ended
    cases ended
  have everyone : ∀ caller, caller ∈ meeting.turns := by
    intro caller
    obtain ⟨result, ended⟩ := rivals.ended caller
    refine (serial.called caller).2 fun waits => ?_
    rw [ended] at waits
    cases waits
  obtain ⟨served, turns, ended⟩ := serial.results
  rw [serial.released idle, Option.toList_none, List.append_nil] at turns
  have requested : served.map requests = Manager.adds specs served :=
    List.map_congr_left fun caller _ => rivals.adds caller
  have serves := rivals.serves
  obtain ⟨first, others, rfl⟩ : ∃ first others, served = first :: others :=
    List.exists_cons_of_ne_nil (List.ne_nil_of_mem (turns ▸ everyone someone))
  obtain ⟨current, loaded, free⟩ := rivals.free
  rw [turns] at serves
  obtain ⟨result, committed, results⟩ :=
    Manager.results_of_free stamped looks formed loaded free rivals.rival serves
  rw [requested, results] at ended
  obtain ⟨here, refused⟩ := List.forall₂_cons.1 ended
  rw [List.forall₂_map_right_iff, List.forall₂_same] at refused
  refine ⟨first, ⟨result, here, committed⟩, fun other apart => refused other ?_⟩
  have member := everyone other
  rw [turns] at member
  exact List.mem_of_ne_of_mem apart member

variable [DecidableEq Changer] [DecidableEq Lister]

theorem sound_of_reached (stamped : ∀ time, '/' ∉ manager.store.stamp time)
    (looks : ∀ path, (manager.probe path).OnlyAsks Effect.looks)
    (formed : start.disk.WellFormed)
    (reached : ReflTransGen (Step manager requests) { machine := start } meeting) :
    meeting.Sound manager requests start := by
  induction reached with
  | refl => exact sound_start manager requests start
  | tail _ step sound => exact sound.step stamped looks formed step

/-- A change with which nobody interferes comes to its end. -/
theorem steps_of_working (manager : Manager) (requests : Changer → Request)
    (meeting : Meeting Changer Lister) (caller : Changer) {work : Script (Except ChangeError Text)}
    (works : meeting.change caller = .working work) :
    ReflTransGen (Step manager requests) meeting
      { meeting with
        machine := (work.run meeting.machine).1
        asked := meeting.asked ++ work.asked meeting.machine
        holder := none
        change := Function.update meeting.change caller (.ended (work.run meeting.machine).2) } := by
  induction work generalizing meeting with
  | done result =>
    have last : ReflTransGen (Step manager requests) meeting (meeting.unlocked caller result) :=
      .single (.unlock works)
    simpa [Meeting.unlocked, Script.run, Script.asked] using last
  | ask effect next ih =>
    have later := ih _ (meeting.worked caller effect next) (Function.update_self ..)
    refine .head (.work works) ?_
    simpa [Meeting.worked, Script.run, Script.asked] using later

/-- A change with which nobody interferes comes to each of its states. -/
theorem exists_steps_of_mem_states (manager : Manager) (requests : Changer → Request)
    (meeting : Meeting Changer Lister) (caller : Changer) {work : Script (Except ChangeError Text)}
    (works : meeting.change caller = .working work) {state : Machine}
    (member : state ∈ work.states meeting.machine) :
    ∃ rest asked, ReflTransGen (Step manager requests) meeting
      { meeting with
        machine := state
        asked := asked
        change := Function.update meeting.change caller (.working rest) } := by
  induction work generalizing meeting with
  | done result =>
    obtain rfl := List.mem_singleton.1 member
    refine ⟨.done result, meeting.asked, ?_⟩
    rw [← works, Function.update_eq_self]
  | ask effect next ih =>
    rcases List.mem_cons.1 member with rfl | later
    · refine ⟨.ask effect next, meeting.asked, ?_⟩
      rw [← works, Function.update_eq_self]
    · obtain ⟨rest, asked, steps⟩ :=
        ih _ (meeting.worked caller effect next) (Function.update_self ..) later
      refine ⟨rest, asked, .head (.work works) ?_⟩
      simpa [Meeting.worked] using steps

/-- To list the shares takes three steps at any time. -/
theorem steps_of_list (manager : Manager) (requests : Changer → Request)
    (meeting : Meeting Changer Lister) (caller : Lister) (waits : meeting.list caller = .waiting) :
    ReflTransGen (Step manager requests) meeting
      (meeting.listed caller (.ended (manager.shares.run meeting.machine).2)) := by
  have lists : (meeting.listed caller (.working manager.shares)).list caller = .working
      (.ask (.read manager.store.confPath) fun shown => .done (manager.told shown)) := by
    rw [list_listed, Function.update_self, Manager.shares_eq_ask]
  refine .head (.list waits) (.head (.look lists) (.head (.answer (Function.update_self ..)) ?_))
  rw [Manager.shares_run, looked_eq_listed rfl]
  simp only [listed, Function.update_idem]
  exact .refl

/-- Wherever the steps of calls that meet have led, the changes are as if they had been carried out
one after the other in the order in which they got the lock, every list of shares is what the live file
says as one of them has left it, and of callers who all want to add the same share exactly one has done
so in the end. -/
theorem serializable (stamped : ∀ time, '/' ∉ manager.store.stamp time)
    (looks : ∀ path, (manager.probe path).OnlyAsks Effect.looks)
    (formed : start.disk.WellFormed)
    (reached : ReflTransGen (Step manager requests) { machine := start } meeting) :
    meeting.Serial manager requests start ∧
      (manager.store.Settled start.disk → ∀ caller result,
        meeting.list caller = .ended result → Told manager requests start meeting.turns result) ∧
      ∀ specs name, meeting.Rivals manager requests start specs name → Nonempty Changer →
        meeting.OneAdded specs := by
  have sound := sound_of_reached stamped looks formed reached
  obtain ⟨earlier, inTurn⟩ := sound.changes
  refine ⟨inTurn.serial, ?_, ?_⟩
  · intro settled caller result ended
    have reads := sound.lists caller
    rw [ended] at reads
    exact reads settled
  · rintro specs name rivals ⟨someone⟩
    exact inTurn.serial.oneAdded stamped looks formed rivals someone

/-- One caller adds a share, another lists the shares then, and a third comes too late. -/
theorem serializable_two_adds :
    let manager : Manager :=
      { store := { confPath := "/smb.conf".toList, backupDir := "/b".toList, maxBackups := 0 }
        service := ⟨[["restart".toList]], []⟩ }
    let directory : Disk := Disk.put {} ["b".toList] .directory
    let start : Machine :=
      { disk := directory.put ["smb.conf".toList] (.file (Utf8.encode "[global]\n".toList) 0o644) }
    let specs (early : Bool) : ShareSpec :=
      { name := if early then "m".toList else "M".toList, path := "/b".toList }
    let requests (early : Bool) : Request := .add (specs early)
    let added : List Share := [{ name := "m".toList, path := "/b".toList, writable := true }]
    ∃ meeting : Meeting Bool Unit,
      ReflTransGen (Step manager requests) { machine := start } meeting ∧
        meeting.Serial manager requests start ∧
        meeting.list () = .ended (.ok added) ∧
        Told manager requests start meeting.turns (.ok added) ∧
        meeting.OneAdded specs := by
  intro manager directory start specs requests added
  have formed : start.disk.WellFormed := by decide +kernel
  have way : start.disk.locate manager.store.confPath = .ok ["smb.conf".toList] := by decide +kernel
  have there : start.disk.node? (start.disk.placeOf manager.store.confPath) ≠ none := by
    decide +kernel
  have settled : manager.store.Settled start.disk := ⟨⟨_, way⟩, fun none => absurd none there⟩
  let opened : Meeting Bool Unit := { machine := start }
  have locked : ReflTransGen (Step manager requests) opened
      (opened.locked true (manager.change (requests true))) := .single (.lock rfl rfl)
  have early := locked.trans (steps_of_working manager requests _ true rfl)
  have listed := early.trans (steps_of_list manager requests _ () rfl)
  have late := listed.tail (@Step.lock Bool Unit _ _ manager requests _ false rfl rfl)
  have reached := late.trans (steps_of_working manager requests _ false rfl)
  obtain ⟨serial, lists, rivals⟩ := @serializable Bool Unit manager requests start _ _ _
    Stamp.whole_text Manager.onlyAsks_probe formed reached
  have told : (manager.shares.run ((manager.change (requests true)).run start).1).2 = .ok added := by
    decide +kernel
  refine ⟨_, reached, serial, congrArg Progress.ended told,
    told ▸ lists settled () _ rfl, rivals specs "m".toList ?_ ⟨true⟩⟩
  have accepted : ∀ early, (specs early).Accepted :=
    fun early => ShareSpec.accepted_iff.2 (by cases early <;> decide +kernel)
  refine ⟨fun _ => rfl, ?_, ?_, ?_, ?_⟩
  · intro early
    refine ⟨?_, accepted early, ?_, ?_⟩ <;> cases early <;> decide +kernel
  · exact ⟨.parse "[global]\n".toList, by decide +kernel, by decide +kernel⟩
  · have first : manager.Serves (requests true) start :=
      (Manager.serves_iff Manager.onlyAsks_probe).2 (by decide +kernel)
    have second : manager.Serves (requests false)
        (manager.afterAll (Manager.adds specs [true]) start) :=
      (Manager.serves_iff Manager.onlyAsks_probe).2 (by decide +kernel)
    rintro (_ | ⟨one, _ | ⟨two, more⟩⟩) caller ⟨rest, shape⟩
    · cases shape
      exact ⟨by decide +kernel, first⟩
    · cases shape
      exact ⟨by decide +kernel, second⟩
    · have shape : one :: two :: more ++ [caller] ++ rest = [true, false] := shape
      simp at shape
  · intro early
    cases early with
    | true => exact ⟨_, rfl⟩
    | false => exact ⟨_, rfl⟩

/-- Somebody has listed the shares while one change was at work, and was told of some that no change in
effect has left. -/
def Astray (manager : Manager) (request : Request) (start : Machine) (shares : List Share) : Prop :=
  start.disk.WellFormed ∧ ∃ meeting : Meeting Unit Unit,
    ReflTransGen (Step manager fun _ => request) { machine := start } meeting ∧
      (∃ result, meeting.change () = .ended result) ∧ meeting.list () = .ended (.ok shares) ∧
      ¬Told manager (fun _ => request) start meeting.turns (.ok shares)

/-- What a change shows on its way, but neither at its beginning nor, if it is in effect, in the end. -/
theorem astray_of_mem_states {request : Request} {shares : List Share}
    (formed : start.disk.WellFormed)
    (shows : (manager.shares.run start).2 ≠ .ok shares ∧
      (∃ state ∈ (manager.change request).states start,
        (manager.shares.run state).2 = .ok shares) ∧
      (Manager.committed ((manager.change request).run start).2 = true →
        (manager.shares.run ((manager.change request).run start).1).2 ≠ .ok shares)) :
    Astray manager request start shares := by
  obtain ⟨before, ⟨state, member, shown⟩, after⟩ := shows
  let opened : Meeting Unit Unit := { machine := start }
  have locked : ReflTransGen (Step manager fun _ => request) opened
      (opened.locked () (manager.change request)) := .single (.lock rfl rfl)
  obtain ⟨rest, asked, during⟩ := exists_steps_of_mem_states manager (fun _ => request)
    (opened.locked () (manager.change request)) () rfl member
  have listed := (locked.trans during).trans (steps_of_list manager _ _ () rfl)
  have reached := listed.trans (steps_of_working manager _ _ () rfl)
  refine ⟨formed, _, reached, ⟨_, rfl⟩, congrArg Progress.ended shown, ?_⟩
  rintro ⟨earlier, inside, lists, committed⟩
  have tells := Manager.eq_told_of_lists lists
  have turns : earlier <+: [()] := inside
  rcases List.prefix_cons_iff.1 turns with rfl | ⟨none, rfl, nothing⟩
  · refine before ?_
    rw [Manager.shares_run]
    exact tells.symm
  · obtain rfl := List.prefix_nil.1 nothing
    have last : (manager.results [request] start).getLast? =
        some ((manager.change request).run start).2 := by
      rw [Manager.results_cons, Manager.results_nil]
      rfl
    refine after (committed shares rfl _ last) ?_
    rw [List.map_singleton, Manager.afterAll_cons, Manager.afterAll_nil] at tells
    rw [Manager.shares_run]
    exact tells.symm

/-- Where a directory is missing on the way to the live file, the file behind it is told of after a
change that has failed, and while one is at work that puts another one in its place. Where unfinished
work takes the name of a live file that there is not, a share is told of that was cut off for want of
space. -/
theorem astray_unless_settled :
    let managing (confPath : Text) : Manager :=
      { store := { confPath, backupDir := "/b".toList }, service := ⟨[], []⟩ }
    let request : Request := .add { name := "n".toList, path := "/".toList }
    let file : Node := .file (Utf8.encode "[m]\n path = /srv\n".toList) 0o644
    let behind (name : Text) : Machine := { disk := Disk.put {} [name] file }
    let room := (Utf8.encode (Document.builtinText ++ "\n[n]\n".toList)).length
    let full : Machine :=
      { disk := Disk.put {} ["b".toList] .directory
        want := fun changes _ => if changes = 5 then some (.space room) else none }
    let long : Text := List.replicate 240 'a'
    let old : Share := { name := "m".toList, path := "/srv".toList }
    Astray (managing ("/b/../".toList ++ long)) request (behind long) [old] ∧
      Astray (managing "/b/../smb.conf".toList) request (behind "smb.conf".toList) [old] ∧
      Astray (managing "/b/.smbshare.000000.tmp".toList) request full [{ name := "n".toList }] := by
  intro managing request file behind room full long old
  refine ⟨?_, ?_, ?_⟩
  · exact astray_of_mem_states (by decide +kernel) (by decide +kernel)
  · exact astray_of_mem_states (by decide +kernel) (by decide +kernel)
  · exact astray_of_mem_states (by decide +kernel) (by decide +kernel)

end Meeting

end SambaShares
