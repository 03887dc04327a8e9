import Mathlib.Data.List.Forall2
import Mathlib.Data.List.Nodup
import Mathlib.Logic.Relation
import SambaShares.Meeting
import SambaShares.Proofs.Manager.Glimpse
/-!
The order in which calls that meet get the lock. The changes come out as if they had been carried out
one after the other in this order, and whoever lists the shares meanwhile is told of a file that one of
them has left, if there was a way to it from the beginning. What carries this is that the holder of the
lock is on a run that began where the one before it ended, since nobody else does more than look.
-/

namespace SambaShares

namespace Meeting

variable {Changer Lister : Type} {manager : Manager} {requests : Changer → Request}
variable {start : Machine} {meeting next : Meeting Changer Lister} {earlier : List Changer}

/-- Where the change stands that has its turn: what is left of it leads to the end that all of it
would have had from the beginning of the turn. If nobody has it, nothing has happened since. -/
def OnTurn (meeting : Meeting Changer Lister) (manager : Manager) (requests : Changer → Request)
    (before : Machine) (asked : List Effect) : Prop :=
  match meeting.holder with
  | none => meeting.machine = before ∧ meeting.asked = asked
  | some caller => ∃ rest, meeting.change caller = .working rest ∧
    rest.run meeting.machine = (manager.change (requests caller)).run before ∧
    rest.states meeting.machine <:+ (manager.change (requests caller)).states before ∧
    meeting.asked ++ rest.asked meeting.machine =
      asked ++ (manager.change (requests caller)).asked before

/-- The changes one after the other: these have ended, and at most one more has its turn. -/
structure InTurn (meeting : Meeting Changer Lister) (manager : Manager)
    (requests : Changer → Request) (start : Machine) (earlier : List Changer) : Prop where
  turns : meeting.turns = earlier ++ meeting.holder.toList
  once : meeting.turns.Nodup
  waiting : ∀ caller, caller ∉ meeting.turns → meeting.change caller = .waiting
  ended : List.Forall₂ (fun caller result => meeting.change caller = .ended result) earlier
    (manager.results (earlier.map requests) start)
  onTurn : meeting.OnTurn manager requests (manager.afterAll (earlier.map requests) start)
    ((manager.changeAll (earlier.map requests)).asked start)

theorem exists_of_forall₂ {α β : Type} {related : α → β → Prop} {these : List α} {those : List β}
    (all : List.Forall₂ related these those) {one : α} (member : one ∈ these) :
    ∃ other ∈ those, related one other := by
  induction all with
  | nil => cases member
  | cons here _ ih =>
    rcases List.mem_cons.1 member with rfl | later
    · exact ⟨_, List.mem_cons_self, here⟩
    · obtain ⟨other, inside, related⟩ := ih later
      exact ⟨other, List.mem_cons_of_mem _ inside, related⟩

theorem InTurn.exists_ended (inTurn : meeting.InTurn manager requests start earlier)
    {caller : Changer} (member : caller ∈ earlier) :
    ∃ result, meeting.change caller = .ended result := by
  obtain ⟨result, -, ended⟩ := exists_of_forall₂ inTurn.ended member
  exact ⟨result, ended⟩

theorem InTurn.not_mem_of_waiting (inTurn : meeting.InTurn manager requests start earlier)
    {caller : Changer} (waits : meeting.change caller = .waiting) : caller ∉ earlier := by
  intro member
  obtain ⟨result, ended⟩ := inTurn.exists_ended member
  cases waits.symm.trans ended

theorem InTurn.not_mem_of_working (inTurn : meeting.InTurn manager requests start earlier)
    {caller : Changer} {rest : Script (Except ChangeError Text)}
    (works : meeting.change caller = .working rest) : caller ∉ earlier := by
  intro member
  obtain ⟨result, ended⟩ := inTurn.exists_ended member
  cases works.symm.trans ended

/-- Who is at work holds the lock. -/
theorem InTurn.holder_of_working (inTurn : meeting.InTurn manager requests start earlier)
    {caller : Changer} {rest : Script (Except ChangeError Text)}
    (works : meeting.change caller = .working rest) : meeting.holder = some caller := by
  have started : caller ∈ meeting.turns := by
    by_contra absent
    rw [inTurn.waiting caller absent] at works
    cases works
  rw [inTurn.turns, List.mem_append] at started
  exact Option.mem_toList.1 (started.resolve_left (inTurn.not_mem_of_working works))

/-- What one change comes to leaves what others have come to. -/
theorem ended_update [DecidableEq Changer] {change : Changer → Changing}
    {results : List (Except ChangeError Text)}
    (ended : List.Forall₂ (fun caller result => change caller = .ended result) earlier results)
    {caller : Changer} (other : caller ∉ earlier) (progress : Changing) :
    List.Forall₂ (fun former result => Function.update change caller progress former = .ended result)
      earlier results := by
  induction ended with
  | nil => exact .nil
  | cons here _ ih =>
    rw [List.mem_cons, not_or] at other
    refine .cons ?_ (ih other.2)
    rw [Function.update_of_ne (Ne.symm other.1)]
    exact here

theorem InTurn.onTurn_of_free (inTurn : meeting.InTurn manager requests start earlier)
    (free : meeting.holder = none) : meeting.turns = earlier ∧
      meeting.machine = manager.afterAll (earlier.map requests) start ∧
        meeting.asked = (manager.changeAll (earlier.map requests)).asked start := by
  have idle := inTurn.onTurn
  have turns := inTurn.turns
  rw [free, Option.toList_none, List.append_nil] at turns
  rw [OnTurn, free] at idle
  exact ⟨turns, idle⟩

theorem InTurn.exists_working (inTurn : meeting.InTurn manager requests start earlier)
    {caller : Changer} (holds : meeting.holder = some caller) :
    ∃ rest, meeting.change caller = .working rest := by
  have busy := inTurn.onTurn
  rw [OnTurn, holds] at busy
  obtain ⟨rest, works, -⟩ := busy
  exact ⟨rest, works⟩

theorem InTurn.onTurn_of_working (inTurn : meeting.InTurn manager requests start earlier)
    {caller : Changer} {rest : Script (Except ChangeError Text)}
    (works : meeting.change caller = .working rest) :
    let before := manager.afterAll (earlier.map requests) start
    meeting.turns = earlier ++ [caller] ∧
      rest.run meeting.machine = (manager.change (requests caller)).run before ∧
      rest.states meeting.machine <:+ (manager.change (requests caller)).states before ∧
      meeting.asked ++ rest.asked meeting.machine =
        (manager.changeAll (earlier.map requests)).asked start ++
          (manager.change (requests caller)).asked before := by
  intro before
  have busy := inTurn.onTurn
  have turns := inTurn.turns
  have holds := inTurn.holder_of_working works
  rw [holds, Option.toList_some] at turns
  rw [OnTurn, holds] at busy
  obtain ⟨left, here, ran, states, asked⟩ := busy
  have same : left = rest := Progress.working.inj (here.symm.trans works)
  subst same
  exact ⟨turns, ran, states, asked⟩

section Changes

variable [DecidableEq Changer]

theorem InTurn.locked (inTurn : meeting.InTurn manager requests start earlier)
    (free : meeting.holder = none) {caller : Changer}
    (waits : meeting.change caller = .waiting) :
    (meeting.locked caller (manager.change (requests caller))).InTurn manager requests start
      earlier := by
  obtain ⟨turns, machine, asked⟩ := inTurn.onTurn_of_free free
  have fresh := inTurn.not_mem_of_waiting waits
  refine ⟨?_, ?_, ?_, ended_update inTurn.ended fresh _, ?_⟩
  · rw [Meeting.locked, turns]
    rfl
  · have once := inTurn.once
    rw [turns] at once
    rw [Meeting.locked, turns]
    exact once.append (List.nodup_singleton caller) (List.disjoint_singleton.2 fresh)
  · intro other absent
    rw [Meeting.locked, List.mem_append, not_or, List.mem_singleton] at absent
    rw [change_locked, Function.update_of_ne absent.2]
    exact inTurn.waiting other absent.1
  · refine ⟨_, Function.update_self .., ?_, ?_, ?_⟩
    · rw [machine_locked, machine]
    · simp only [machine_locked, machine, List.suffix_rfl]
    · rw [machine_locked, machine]
      exact congrArg (· ++ _) asked

theorem InTurn.worked (inTurn : meeting.InTurn manager requests start earlier) {caller : Changer}
    {effect : Effect} {next : effect.Answer → Script (Except ChangeError Text)}
    (works : meeting.change caller = .working (.ask effect next)) :
    (meeting.worked caller effect next).InTurn manager requests start earlier := by
  have holds := inTurn.holder_of_working works
  obtain ⟨-, ran, states, asked⟩ := inTurn.onTurn_of_working works
  refine ⟨inTurn.turns, inTurn.once, ?_,
    ended_update inTurn.ended (inTurn.not_mem_of_working works) _, ?_⟩
  · intro other absent
    have idle := inTurn.waiting other absent
    have apart : other ≠ caller := by
      rintro rfl
      rw [works] at idle
      cases idle
    rw [change_worked, Function.update_of_ne apart]
    exact idle
  · rw [OnTurn, show (meeting.worked caller effect next).holder = some caller from holds]
    refine ⟨_, Function.update_self .., ran, (List.suffix_cons _ _).trans states, ?_⟩
    rw [← asked, Script.asked]
    exact List.append_assoc ..

theorem InTurn.unlocked (inTurn : meeting.InTurn manager requests start earlier) {caller : Changer}
    {result : Except ChangeError Text} (works : meeting.change caller = .working (.done result)) :
    (meeting.unlocked caller result).InTurn manager requests start (earlier ++ [caller]) := by
  obtain ⟨turns, ran, -, asked⟩ := inTurn.onTurn_of_working works
  have apart : ∀ other, other ∉ meeting.turns → other ≠ caller := by
    rintro other absent rfl
    rw [turns] at absent
    simp at absent
  refine ⟨?_, inTurn.once, ?_, ?_, ?_⟩
  · exact turns.trans (List.append_nil _).symm
  · intro other absent
    rw [change_unlocked, Function.update_of_ne (apart other absent)]
    exact inTurn.waiting other absent
  · rw [List.map_append, List.map_singleton, Manager.results_concat, ← ran]
    refine List.rel_append (ended_update inTurn.ended (inTurn.not_mem_of_working works) _) ?_
    exact .cons (Function.update_self ..) .nil
  · rw [List.map_append, List.map_singleton, Manager.afterAll_concat, Manager.asked_concat, ← ran,
      ← asked, Script.asked, List.append_nil]
    exact ⟨rfl, rfl⟩

end Changes

/-- What is told of the shares when changes have got the lock in this order: what the live file says as
one of them has left it or as it was before them, and no shares but those that a change in effect has
left or that were there before. -/
def Told (manager : Manager) (requests : Changer → Request) (start : Machine)
    (turns : List Changer) (result : Except ChangeError (List Share)) : Prop :=
  ∃ earlier, earlier <+: turns ∧
    manager.store.Lists (manager.afterAll (earlier.map requests) start).disk result ∧
    ∀ shares, result = .ok shares → manager.EndsCommitted (earlier.map requests) start

theorem Told.mono {turns more : List Changer} {result : Except ChangeError (List Share)}
    (told : Told manager requests start turns result) (grows : turns <+: more) :
    Told manager requests start more result := by
  obtain ⟨earlier, before, tells⟩ := told
  exact ⟨earlier, before.trans grows, tells⟩

/-- What one of the changes has left at the live path may be told. -/
theorem told_of_read (stamped : ∀ time, '/' ∉ manager.store.stamp time)
    (looks : ∀ path, (manager.probe path).OnlyAsks Effect.looks)
    (formed : start.disk.WellFormed) (settled : manager.store.Settled start.disk)
    {turns : List Changer} {disk : Disk} (before : earlier <+: turns)
    (shown : disk.read manager.store.confPath =
      (manager.afterAll (earlier.map requests) start).disk.read manager.store.confPath) :
    Told manager requests start turns
      (manager.told (disk.read manager.store.confPath)) := by
  rcases Manager.exists_endsCommitted stamped looks formed settled (earlier.map requests) with
    ⟨served, among, committed, same⟩ | directory
  · obtain ⟨former, inside, rfl⟩ := List.prefix_map_iff.1 among
    rw [shown, same]
    exact ⟨former, inside.trans before, manager.lists_told _, fun _ _ => committed⟩
  · refine ⟨earlier, before, shown ▸ manager.lists_told _, fun shares told => ?_⟩
    rw [shown, directory] at told
    cases told

/-- Whoever reads the live file now is told what the changes before the current one have left, or what
the current one leaves. -/
theorem InTurn.told (inTurn : meeting.InTurn manager requests start earlier)
    (stamped : ∀ time, '/' ∉ manager.store.stamp time)
    (looks : ∀ path, (manager.probe path).OnlyAsks Effect.looks)
    (formed : start.disk.WellFormed) (settled : manager.store.Settled start.disk) :
    Told manager requests start meeting.turns
      (manager.told (meeting.machine.disk.read manager.store.confPath)) := by
  cases holder : meeting.holder with
  | none =>
    obtain ⟨turns, machine, -⟩ := inTurn.onTurn_of_free holder
    rw [turns, machine]
    exact told_of_read stamped looks formed settled List.prefix_rfl rfl
  | some caller =>
    obtain ⟨rest, works⟩ := inTurn.exists_working holder
    obtain ⟨turns, -, states, -⟩ := inTurn.onTurn_of_working works
    have member := states.subset (Script.mem_states_self rest meeting.machine)
    rw [turns]
    rcases Manager.read_of_mem_change stamped looks
        (Manager.wellFormed_afterAll formed (earlier.map requests))
        (Manager.settled_afterAll stamped looks formed settled (earlier.map requests)) member with
      same | same
    · exact told_of_read stamped looks formed settled (List.prefix_append _ _) same
    · refine told_of_read stamped looks formed settled List.prefix_rfl ?_
      rw [List.map_append, List.map_singleton, Manager.afterAll_concat, same]

/-- A call that lists the shares has not read the live file yet, or knows what to answer. -/
def Reads (manager : Manager) (told : Except ChangeError (List Share) → Prop) : Listing → Prop
  | .waiting => True
  | .working rest => rest = manager.shares ∨ ∃ result, rest = .done result ∧ told result
  | .ended result => told result

theorem Reads.mono {told more : Except ChangeError (List Share) → Prop} {progress : Listing}
    (reads : Reads manager told progress) (weaker : ∀ result, told result → more result) :
    Reads manager more progress := by
  cases progress with
  | waiting => trivial
  | working rest =>
    refine reads.imp_right ?_
    rintro ⟨result, shape, here⟩
    exact ⟨result, shape, weaker result here⟩
  | ended result => exact weaker result reads

/-- What holds whenever calls meet. -/
structure Sound (meeting : Meeting Changer Lister) (manager : Manager)
    (requests : Changer → Request) (start : Machine) : Prop where
  changes : ∃ earlier, meeting.InTurn manager requests start earlier
  lists : ∀ caller, Reads manager (fun result => manager.store.Settled start.disk →
    Told manager requests start meeting.turns result) (meeting.list caller)

theorem Sound.listed [DecidableEq Lister] (sound : meeting.Sound manager requests start)
    {caller : Lister} {progress : Listing}
    (reads : Reads manager (fun result => manager.store.Settled start.disk →
      Told manager requests start meeting.turns result) progress) :
    (meeting.listed caller progress).Sound manager requests start := by
  obtain ⟨earlier, inTurn⟩ := sound.changes
  refine ⟨⟨earlier, inTurn.turns, inTurn.once, inTurn.waiting, inTurn.ended, inTurn.onTurn⟩, ?_⟩
  intro other
  by_cases same : other = caller
  · subst same
    rw [list_listed, Function.update_self]
    exact reads
  · rw [list_listed, Function.update_of_ne same]
    exact sound.lists other

theorem sound_start (manager : Manager) (requests : Changer → Request) (start : Machine) :
    ({ machine := start } : Meeting Changer Lister).Sound manager requests start :=
  ⟨⟨[], rfl, List.nodup_nil, fun _ _ => rfl, .nil, rfl, rfl⟩, fun _ => trivial⟩

/-- What one step of one call keeps, any number of steps of all calls keep. -/
theorem Sound.step [DecidableEq Changer] [DecidableEq Lister]
    (stamped : ∀ time, '/' ∉ manager.store.stamp time)
    (looks : ∀ path, (manager.probe path).OnlyAsks Effect.looks)
    (formed : start.disk.WellFormed) (sound : meeting.Sound manager requests start)
    (step : Step manager requests meeting next) : next.Sound manager requests start := by
  obtain ⟨earlier, inTurn⟩ := sound.changes
  cases step with
  | lock free waits =>
    refine ⟨⟨earlier, inTurn.locked free waits⟩, fun other => ?_⟩
    refine (sound.lists other).mono fun result told settled => ?_
    exact (told settled).mono (List.prefix_append _ _)
  | work works => exact ⟨⟨earlier, inTurn.worked works⟩, sound.lists⟩
  | unlock works => exact ⟨⟨_, inTurn.unlocked works⟩, sound.lists⟩
  | list waits => exact sound.listed (Or.inl rfl)
  | @look caller effect next works =>
    have reads := sound.lists caller
    rw [works] at reads
    rcases reads with shape | ⟨result, shape, -⟩
    · obtain ⟨same, shown⟩ := Manager.perform_of_shares shape meeting.machine
      rw [looked_eq_listed same, shown]
      exact sound.listed (Or.inr ⟨_, rfl, inTurn.told stamped looks formed⟩)
    · cases shape
  | @answer caller result works =>
    have reads := sound.lists caller
    rw [works] at reads
    rcases reads with shape | ⟨known, shape, told⟩
    · rw [Manager.shares_eq_ask] at shape
      cases shape
    · cases shape
      exact sound.listed told

end Meeting

end SambaShares
