import SambaShares.Machine
/-!
How to reason about scripts. `Ensures` says what holds in every state of a script, so also wherever
it is cut off, and what holds of its result at the end; it is proved one request at a time.
`OnlyAsks` bounds what a script can ask for whatever the answers are, and `asked` lists what it did
ask for.
-/

namespace SambaShares

namespace Script

variable {α β ε : Type} {machine : Machine} {always during : Machine → Prop}

/-- Every state of the script satisfies `always`, its result and its last state `atEnd`. -/
def Ensures (script : Script α) (machine : Machine) (always : Machine → Prop)
    (atEnd : α → Machine → Prop) : Prop :=
  (∀ state ∈ script.states machine, always state) ∧
    atEnd (script.run machine).2 (script.run machine).1

theorem run_mem_states (script : Script α) (machine : Machine) :
    (script.run machine).1 ∈ script.states machine := by
  induction script generalizing machine with
  | done result => exact List.mem_singleton_self machine
  | ask effect next ih => exact List.mem_cons_of_mem _ (ih _ _)

theorem mem_states_self (script : Script α) (machine : Machine) :
    machine ∈ script.states machine := by
  cases script <;> exact List.mem_cons_self

/-- From each of its states a script goes on to the same end. -/
theorem exists_rest_of_mem_states {script : Script α} {state : Machine}
    (member : state ∈ script.states machine) :
    ∃ rest : Script α, rest.run state = script.run machine := by
  induction script generalizing machine with
  | done result =>
    rw [List.mem_singleton.1 member]
    exact ⟨.done result, rfl⟩
  | ask effect next ih =>
    rcases List.mem_cons.1 member with rfl | later
    · exact ⟨.ask effect next, rfl⟩
    · exact ih _ later

theorem mem_states_bind {script : Script α} {next : α → Script β} {state : Machine} :
    state ∈ (script.bind next).states machine ↔ state ∈ script.states machine ∨
      state ∈ (next (script.run machine).2).states (script.run machine).1 := by
  induction script generalizing machine with
  | done result =>
    have first := mem_states_self (next result) machine
    simp only [bind, states, run, List.mem_singleton]
    constructor
    · exact Or.inr
    · rintro (rfl | later)
      · exact first
      · exact later
  | ask effect rest ih => simp only [bind, states, run, List.mem_cons, ih, or_assoc]

theorem mem_states_bind_done {script : Script α} {f : α → β} {state : Machine} :
    state ∈ (script.bind fun result => .done (f result)).states machine ↔
      state ∈ script.states machine := by
  rw [mem_states_bind]
  constructor
  · rintro (during | last)
    · exact during
    · rw [List.mem_singleton.1 last]
      exact run_mem_states script machine
  · exact Or.inl

theorem ensures_done {result : α} {atEnd : α → Machine → Prop} :
    (Script.done result).Ensures machine always atEnd ↔ always machine ∧ atEnd result machine := by
  simp [Ensures, states]

theorem ensures_ask {effect : Effect} {next : effect.Answer → Script α}
    {atEnd : α → Machine → Prop} :
    (Script.ask effect next).Ensures machine always atEnd ↔ always machine ∧
      (next (machine.perform effect).2).Ensures (machine.perform effect).1 always atEnd := by
  simp only [Ensures, states, run, List.forall_mem_cons, and_assoc]

theorem ensures_request {effect : Effect} {next : effect.Answer → Script α}
    {atEnd : α → Machine → Prop} :
    ((request effect).bind next).Ensures machine always atEnd ↔ always machine ∧
      (next (machine.perform effect).2).Ensures (machine.perform effect).1 always atEnd :=
  ensures_ask

/-- The condition on the states may speak of the result in the end. -/
theorem ensures_request_result (always : α → Machine → Prop) {effect : Effect}
    {next : effect.Answer → Script α} {atEnd : α → Machine → Prop}
    (first : ∀ result, always result machine)
    (rest : (next (machine.perform effect).2).Ensures (machine.perform effect).1
      (always ((next (machine.perform effect).2).run (machine.perform effect).1).2) atEnd) :
    ((request effect).bind next).Ensures machine
      (always (((request effect).bind next).run machine).2) atEnd :=
  ensures_ask.2 ⟨first _, rest⟩

theorem Ensures.always_run {script : Script α} {atEnd : α → Machine → Prop}
    (ensures : script.Ensures machine always atEnd) : always (script.run machine).1 :=
  ensures.1 _ (run_mem_states script machine)

theorem Ensures.mono {script : Script α} {middle atEnd : α → Machine → Prop}
    (ensures : script.Ensures machine during middle) (states : ∀ state, during state → always state)
    (last : ∀ result state, during state → middle result state → atEnd result state) :
    script.Ensures machine always atEnd :=
  ⟨fun state member => states state (ensures.1 state member),
    last _ _ ensures.always_run ensures.2⟩

/-- One script after another: the second starts where the first ended. -/
theorem Ensures.bind {script : Script α} {next : α → Script β} {middle : α → Machine → Prop}
    {atEnd : β → Machine → Prop} (first : script.Ensures machine always middle)
    (second : ∀ result state, always state → middle result state →
      (next result).Ensures state always atEnd) :
    (script.bind next).Ensures machine always atEnd := by
  have later := second _ _ first.always_run first.2
  constructor
  · intro state member
    rcases mem_states_bind.1 member with before | after
    · exact first.1 state before
    · exact later.1 state after
  · rw [run_bind]
    exact later.2

/-- A script that stops at an error. -/
theorem Ensures.andThen {script : Script (Except ε α)} {next : α → Script (Except ε β)}
    {middle : Except ε α → Machine → Prop} {atEnd : Except ε β → Machine → Prop}
    (first : script.Ensures machine always middle)
    (failure : ∀ e state, always state → middle (.error e) state → atEnd (.error e) state)
    (success : ∀ result state, always state → middle (.ok result) state →
      (next result).Ensures state always atEnd) :
    (script.andThen next).Ensures machine always atEnd := by
  refine first.bind fun result state holds reached => ?_
  cases result with
  | error e => exact ensures_done.2 ⟨holds, failure e state holds reached⟩
  | ok result => exact success result state holds reached

theorem andThen_assoc {γ : Type} (script : Script (Except ε α)) (first : α → Script (Except ε β))
    (second : β → Script (Except ε γ)) :
    (script.andThen first).andThen second =
      script.andThen fun result => (first result).andThen second := by
  unfold andThen
  rw [bind_assoc]
  congr 1
  funext result
  cases result <;> rfl

theorem mem_states_andThen {script : Script (Except ε α)} {next : α → Script (Except ε β)}
    {state : Machine} :
    state ∈ (script.andThen next).states machine ↔ state ∈ script.states machine ∨
      ∃ result, (script.run machine).2 = .ok result ∧
        state ∈ (next result).states (script.run machine).1 := by
  rw [andThen, mem_states_bind]
  cases (script.run machine).2 with
  | error e =>
    simp only [states, List.mem_singleton, reduceCtorEq, false_and, exists_false, or_false,
      or_iff_left_iff_imp]
    rintro rfl
    exact run_mem_states script machine
  | ok result => simp

/-- What the script asks for, in order. -/
def asked : Script α → Machine → List Effect
  | .done _, _ => []
  | .ask effect next, machine =>
    effect :: (next (machine.perform effect).2).asked (machine.perform effect).1

theorem asked_bind (script : Script α) (next : α → Script β) (machine : Machine) :
    (script.bind next).asked machine =
      script.asked machine ++ (next (script.run machine).2).asked (script.run machine).1 := by
  induction script generalizing machine with
  | done => rfl
  | ask effect rest ih => simp only [bind, asked, run, ih, List.cons_append]

theorem after_done (count : Nat) (result : α) (machine : Machine) :
    (Script.done result).after count machine = machine := by
  cases count <;> rfl

/-- Cut off in its first part, a script is as if there were no second one. -/
theorem after_bind (count : Nat) (script : Script α) (next : α → Script β) (machine : Machine) :
    (script.bind next).after count machine =
      if count ≤ (script.asked machine).length then script.after count machine
      else (next (script.run machine).2).after (count - (script.asked machine).length)
        (script.run machine).1 := by
  induction script generalizing count machine with
  | done result =>
    cases count with
    | zero => cases next result <;> rfl
    | succ count => rfl
  | ask effect rest ih =>
    cases count with
    | zero => rfl
    | succ count =>
      simp only [bind, after, asked, run, List.length_cons, Nat.add_le_add_iff_right, ih,
        Nat.add_sub_add_right]

theorem run_andThen (script : Script (Except ε α)) (next : α → Script (Except ε β))
    (machine : Machine) :
    (script.andThen next).run machine = match (script.run machine).2 with
      | .ok result => (next result).run (script.run machine).1
      | .error e => ((script.run machine).1, .error e) := by
  rw [andThen, run_bind]
  cases (script.run machine).2 <;> rfl

theorem asked_andThen (script : Script (Except ε α)) (next : α → Script (Except ε β))
    (machine : Machine) :
    (script.andThen next).asked machine = script.asked machine ++ match (script.run machine).2 with
      | .ok result => (next result).asked (script.run machine).1
      | .error _ => [] := by
  rw [andThen, asked_bind]
  cases (script.run machine).2 <;> rfl

/-- Whatever the answers are, the script asks for nothing else. -/
def OnlyAsks (allowed : Effect → Bool) : Script α → Prop
  | .done _ => True
  | .ask effect next => allowed effect = true ∧ ∀ answer, (next answer).OnlyAsks allowed

theorem onlyAsks_request {allowed : Effect → Bool} {effect : Effect}
    (allows : allowed effect = true) : (request effect).OnlyAsks allowed :=
  ⟨allows, fun _ => trivial⟩

theorem OnlyAsks.bind {allowed : Effect → Bool} {script : Script α} {next : α → Script β}
    (first : script.OnlyAsks allowed) (second : ∀ result, (next result).OnlyAsks allowed) :
    (script.bind next).OnlyAsks allowed := by
  induction script with
  | done result => exact second result
  | ask effect rest ih => exact ⟨first.1, fun answer => ih answer (first.2 answer)⟩

theorem OnlyAsks.andThen {allowed : Effect → Bool} {script : Script (Except ε α)}
    {next : α → Script (Except ε β)} (first : script.OnlyAsks allowed)
    (second : ∀ result, (next result).OnlyAsks allowed) :
    (script.andThen next).OnlyAsks allowed := by
  refine first.bind fun result => ?_
  cases result with
  | error => trivial
  | ok result => exact second result

theorem OnlyAsks.of_mem_asked {allowed : Effect → Bool} {script : Script α}
    (only : script.OnlyAsks allowed) {effect : Effect} (member : effect ∈ script.asked machine) :
    allowed effect = true := by
  induction script generalizing machine with
  | done => cases member
  | ask first next ih =>
    rcases List.mem_cons.1 member with rfl | later
    · exact only.1
    · exact ih _ (only.2 _) later

/-- What requests of one kind preserve, a script of such requests preserves in all its states. -/
theorem OnlyAsks.preserves {allowed : Effect → Bool} {script : Script α}
    (only : script.OnlyAsks allowed) (kept : ∀ machine effect, allowed effect = true →
      always machine → always (machine.perform effect).1) (holds : always machine) :
    ∀ state ∈ script.states machine, always state := by
  induction script generalizing machine with
  | done => simpa [states] using holds
  | ask effect next ih =>
    rw [states, List.forall_mem_cons]
    exact ⟨holds, ih _ (only.2 _) (kept machine effect only.1 holds)⟩

/-- What requests of one kind do not change, no script of such requests changes. -/
theorem OnlyAsks.invariant {γ : Type} {allowed : Effect → Bool} {script : Script α}
    (only : script.OnlyAsks allowed) (view : Machine → γ)
    (kept : ∀ machine effect, allowed effect = true →
      view (machine.perform effect).1 = view machine)
    (machine : Machine) : view (script.run machine).1 = view machine := by
  have same : ∀ state ∈ script.states machine, view state = view machine :=
    only.preserves (fun state effect allows same => (kept state effect allows).trans same) rfl
  exact same _ (run_mem_states script machine)

end Script

namespace Effect

/-- A request that looks at the disk and changes nothing. -/
def looks : Effect → Bool
  | read _ | list _ | probe _ | isFile _ | isDirectory _ => true
  | _ => false

/-- A request to start a program. -/
def starts : Effect → Bool
  | start .. => true
  | _ => false

/-- A request to start a program that is waited for no longer than a given time. -/
def isLimited : Effect → Bool
  | start _ (some _) => true
  | _ => false

theorem starts_of_isLimited {effect : Effect} (limited : effect.isLimited = true) :
    effect.starts = true := by
  cases effect <;> first | rfl | cases limited

/-- A request that starts no program. -/
def quiet (effect : Effect) : Bool := !effect.starts

theorem quiet_of_looks {effect : Effect} (looks : effect.looks = true) : effect.quiet = true := by
  cases effect <;> first | rfl | cases looks

end Effect

namespace Machine

theorem perform_of_looks (machine : Machine) {effect : Effect} (looks : effect.looks = true) :
    (machine.perform effect).1 = machine := by
  cases effect <;> first | rfl | cases looks

/-- What depends on neither the disk nor the number of changes is not touched by a change. -/
theorem changed_congr {α γ : Type} (machine : Machine) (view : Machine → γ)
    (same : ∀ disk changes, view { machine with disk, changes } = view machine) (effect : Effect)
    (result : Except IoError (Disk × α)) : view (machine.changed effect result).1 = view machine := by
  rcases result with cause | ⟨disk, answer⟩
  · rfl
  · simp only [changed]
    split
    · exact same _ _
    · exact same _ _

theorem perform_of_quiet (machine : Machine) {effect : Effect} (quiet : effect.quiet = true) :
    ((machine.perform effect).1.started, (machine.perform effect).1.course) =
      (machine.started, machine.course) := by
  cases effect with
  | makeDirectory | createFresh | write | setMode | rename | remove =>
    exact machine.changed_congr (fun state => (state.started, state.course)) (fun _ _ => rfl) _ _
  | read | list | probe | isFile | isDirectory | clock => rfl
  | start => cases quiet

theorem disk_perform_of_starts (machine : Machine) {effect : Effect}
    (starts : effect.starts = true) : (machine.perform effect).1.disk = machine.disk := by
  cases effect <;> first | rfl | cases starts

end Machine

namespace Script

variable {α : Type} {script : Script α}

theorem OnlyAsks.mono {allowed wider : Effect → Bool} (only : script.OnlyAsks allowed)
    (weaker : ∀ effect, allowed effect = true → wider effect = true) : script.OnlyAsks wider := by
  induction script with
  | done => trivial
  | ask effect next ih => exact ⟨weaker effect only.1, fun answer => ih answer (only.2 answer)⟩

/-- A script that only looks leaves the machine as it is. -/
theorem OnlyAsks.run_of_looks (looks : script.OnlyAsks Effect.looks)
    (machine : Machine) : (script.run machine).1 = machine :=
  looks.invariant id (fun state _ allows => state.perform_of_looks allows) machine

theorem OnlyAsks.eq_of_mem_states (looks : script.OnlyAsks Effect.looks) {machine state : Machine}
    (member : state ∈ script.states machine) : state = machine := by
  have same : ∀ state ∈ script.states machine, state = machine :=
    looks.preserves (fun state _ allows same => (state.perform_of_looks allows).trans same) rfl
  exact same state member

theorem OnlyAsks.filter_starts_asked (quiet : script.OnlyAsks Effect.quiet) (machine : Machine) :
    (script.asked machine).filter Effect.starts = [] := by
  rw [List.filter_eq_nil_iff]
  intro effect member
  have silent := quiet.of_mem_asked member
  simpa [Effect.quiet] using silent

theorem OnlyAsks.filter_starts_asked_of_starts (only : script.OnlyAsks Effect.starts)
    (machine : Machine) :
    (script.asked machine).filter Effect.starts = script.asked machine :=
  List.filter_eq_self.2 fun _ member => only.of_mem_asked member

/-- How programs go depends on the programs before them only, so a script that does nothing but
start programs goes the same way on any two machines that agree on these. -/
theorem OnlyAsks.starts_congr (only : script.OnlyAsks Effect.starts) {first second : Machine}
    (started : first.started = second.started) (course : first.course = second.course) :
    script.asked first = script.asked second ∧ (script.run first).2 = (script.run second).2 := by
  induction script generalizing first second with
  | done => exact ⟨rfl, rfl⟩
  | ask effect next ih =>
    cases effect with
    | start command patience =>
      have answer : (first.perform (.start command patience)).2 =
          (second.perform (.start command patience)).2 := by
        change (first.course first.started.length command).within patience =
          (second.course second.started.length command).within patience
        rw [started, course]
      have same : (first.perform (.start command patience)).1.started =
          (second.perform (.start command patience)).1.started := by
        simp [Machine.perform, started, course]
      have later := ih (second.perform (.start command patience)).2 (only.2 _) same course
      simp only [asked, run, answer]
      exact ⟨by rw [later.1], later.2⟩
    | _ => cases only.1

end Script

end SambaShares
