import SambaShares.Proofs.Manager.Serial
import SambaShares.Proofs.Store.Glimpse
/-!
What those see who ask for the shares without waiting for their turn. They read the live file once,
so what they are told is what that one reading says. While a change is at work, that is what was there
before or what the change leaves, and only a change in effect leaves another document.
-/

namespace SambaShares

/-- What a list of the shares says of a disk: the shares of the document at the live path, those of the
built-in document if nothing is there, and otherwise why there is no document. -/
inductive Store.Lists (store : Store) (disk : Disk) : Except ChangeError (List Share) → Prop
  | document {text : Text} (there : disk.read store.confPath = .ok (Utf8.encode text)) :
    Lists store disk (.ok (Registry.ofDocument (.parse text)).shares)
  | builtin (absent : disk.read store.confPath = .error .noEntry) :
    Lists store disk (.ok (Registry.ofDocument .builtin).shares)
  | notUtf8 {content : Bytes} {offset : Nat} (there : disk.read store.confPath = .ok content)
    (garbled : Utf8.decode content = .error offset) :
    Lists store disk (.error (.readFailed (.notUtf8 store.confPath offset)))
  | unread {cause : IoError} (failed : disk.read store.confPath = .error cause)
    (present : cause ≠ .noEntry) :
    Lists store disk (.error (.readFailed (.read store.confPath cause)))

/-- A disk always has something to say. -/
theorem Store.exists_lists (store : Store) (disk : Disk) : ∃ result, store.Lists disk result := by
  rcases shown : disk.read store.confPath with cause | content
  · by_cases absent : cause = .noEntry
    · exact ⟨_, .builtin (absent ▸ shown)⟩
    · exact ⟨_, .unread shown absent⟩
  · cases decoded : Utf8.decode content with
    | error offset => exact ⟨_, .notUtf8 shown decoded⟩
    | ok text =>
      rw [← Utf8.encode_of_decode decoded] at shown
      exact ⟨_, .document shown⟩

namespace Manager

variable {manager : Manager} {machine state : Machine} {request : Request}

/-- What is told of the shares when this was read at the live path. -/
def told (manager : Manager) (shown : Except IoError Bytes) : Except ChangeError (List Share) :=
  let loaded : Except StoreError Document := match shown with
    | .ok content => manager.store.ofBytes content
    | .error .noEntry => .ok .builtin
    | .error cause => .error (.read manager.store.confPath cause)
  ((loaded.mapError ChangeError.ofStore).map Registry.ofDocument).map (·.shares)

/-- To list the shares is to read the live file, once. -/
theorem shares_eq_ask (manager : Manager) :
    manager.shares =
      .ask (.read manager.store.confPath) fun shown => .done (manager.told shown) := by
  have next : ∀ shown : Except IoError Bytes, ((((match shown with
        | .ok content => .done (manager.store.ofBytes content)
        | .error .noEntry => .done (.ok .builtin)
        | .error cause => .done (.error (.read manager.store.confPath cause)) :
          Script (Except StoreError Document)).bind fun result =>
            .done (result.mapError ChangeError.ofStore)).bind fun result =>
              .done (result.map Registry.ofDocument)).bind fun result =>
                .done (result.map (·.shares))) = .done (manager.told shown) := by
    intro shown
    rcases shown with cause | content
    · cases cause <;> rfl
    · rfl
  exact congrArg (Script.ask (.read manager.store.confPath)) (funext next)

theorem shares_run (manager : Manager) (machine : Machine) :
    manager.shares.run machine =
      (machine, manager.told (machine.disk.read manager.store.confPath)) := by
  rw [shares_eq_ask]
  rfl

theorem eq_told_of_lists {disk : Disk} {result : Except ChangeError (List Share)}
    (lists : manager.store.Lists disk result) :
    result = manager.told (disk.read manager.store.confPath) := by
  cases lists with
  | document there =>
    simp only [told, there, Store.ofBytes, Utf8.decode_encode]
    rfl
  | builtin absent =>
    rw [absent]
    rfl
  | notUtf8 there garbled =>
    simp only [told, there, Store.ofBytes, garbled]
    rfl
  | @unread cause failed present =>
    rw [failed]
    cases cause <;> first | rfl | exact absurd rfl present

theorem lists_told (manager : Manager) (disk : Disk) :
    manager.store.Lists disk (manager.told (disk.read manager.store.confPath)) := by
  obtain ⟨result, lists⟩ := manager.store.exists_lists disk
  rw [← eq_told_of_lists lists]
  exact lists

theorem onlyAsks_reconcile (manager : Manager) (backup : Text) :
    (manager.reconcile backup).OnlyAsks Effect.starts := by
  refine (onlyAsks_restartWithin _ _).bind fun ended => ?_
  cases ended <;> trivial

/-- A change that comes so far leaves the disk as saving leaves it. -/
theorem disk_change (looks : ∀ path, (manager.probe path).OnlyAsks Effect.looks)
    {current next : Document} (loaded : (manager.load.run machine).2 = .ok current)
    (planned : ((manager.plan current request).run machine).2 = .ok next) :
    ((manager.change request).run machine).1.disk =
      ((manager.store.persist current next).run machine).1.disk := by
  have changes := changes_of_change looks machine request
  generalize ((manager.change request).run machine).2 = result at changes
  cases changes with
  | unread failed =>
    rw [loaded] at failed
    cases failed
  | refused same failed =>
    cases loaded.symm.trans same
    rw [planned] at failed
    cases failed
  | unsaved same plans _ left =>
    cases loaded.symm.trans same
    cases planned.symm.trans plans
    exact left
  | saved same plans _ left =>
    cases loaded.symm.trans same
    cases planned.symm.trans plans
    exact left

/-- Every state of a change has the disk of its beginning or one that saving goes through. -/
theorem disk_of_mem_states (looks : ∀ path, (manager.probe path).OnlyAsks Effect.looks)
    (member : state ∈ (manager.change request).states machine) :
    state.disk = machine.disk ∨ ∃ current next, (manager.load.run machine).2 = .ok current ∧
      ((manager.plan current request).run machine).2 = .ok next ∧
        ∃ during ∈ (manager.store.persist current next).states machine,
          state.disk = during.disk := by
  have loads := onlyAsks_load manager
  unfold change at member
  rcases Script.mem_states_andThen.1 member with early | ⟨current, loaded, member⟩
  · exact Or.inl (congrArg Machine.disk (loads.eq_of_mem_states early))
  have plans := onlyAsks_plan looks current request
  rw [loads.run_of_looks] at member
  rcases Script.mem_states_andThen.1 member with early | ⟨next, planned, member⟩
  · exact Or.inl (congrArg Machine.disk (plans.eq_of_mem_states early))
  rw [plans.run_of_looks] at member
  refine Or.inr ⟨current, next, loaded, planned, ?_⟩
  rcases Script.mem_states_andThen.1 member with during | ⟨backup, -, late⟩
  · exact ⟨state, Script.mem_states_bind_done.1 during, rfl⟩
  · have restarts := (onlyAsks_reconcile manager backup).preserves
      (fun later _ starts same => (later.disk_perform_of_starts starts).trans same)
      (rfl : ((saved (manager.store.persist current next)).run machine).1.disk = _)
    refine ⟨_, Script.run_mem_states _ machine, (restarts state late).trans ?_⟩
    rw [saved, Script.run_bind, Script.run_done]

/-- Whoever reads the live file during a change reads what was there before or what the change leaves. -/
theorem read_of_mem_change (stamped : ∀ time, '/' ∉ manager.store.stamp time)
    (looks : ∀ path, (manager.probe path).OnlyAsks Effect.looks)
    (formed : machine.disk.WellFormed) (settled : manager.store.Settled machine.disk)
    (member : state ∈ (manager.change request).states machine) :
    state.disk.read manager.store.confPath = machine.disk.read manager.store.confPath ∨
      state.disk.read manager.store.confPath =
        ((manager.change request).run machine).1.disk.read manager.store.confPath := by
  rcases disk_of_mem_states looks member with
    same | ⟨current, next, loaded, planned, during, inside, same⟩
  · exact Or.inl (congrArg (·.read manager.store.confPath) same)
  · rw [disk_change looks loaded planned, same]
    exact Store.read_of_mem_persist stamped formed settled inside

theorem settled_change (stamped : ∀ time, '/' ∉ manager.store.stamp time)
    (looks : ∀ path, (manager.probe path).OnlyAsks Effect.looks)
    (formed : machine.disk.WellFormed) (settled : manager.store.Settled machine.disk)
    (request : Request) :
    manager.store.Settled ((manager.change request).run machine).1.disk := by
  rcases disk_of_mem_states looks (Script.run_mem_states (manager.change request) machine) with
    same | ⟨current, next, loaded, planned, -⟩
  · rw [same]
    exact settled
  · rw [disk_change looks loaded planned]
    exact Store.settled_persist stamped formed settled current next

/-- A change that is not in effect leaves the live file as it was, or a directory where there was
none. -/
theorem read_of_not_committed (stamped : ∀ time, '/' ∉ manager.store.stamp time)
    (looks : ∀ path, (manager.probe path).OnlyAsks Effect.looks)
    (formed : machine.disk.WellFormed) (settled : manager.store.Settled machine.disk)
    (ended : committed ((manager.change request).run machine).2 = false) :
    let after := ((manager.change request).run machine).1.disk
    after.read manager.store.confPath = machine.disk.read manager.store.confPath ∨
      after.read manager.store.confPath = .error .isDirectory := by
  intro after
  have changes : manager.Changes request machine after _ _ := changes_of_change looks machine request
  clear_value after
  generalize ((manager.change request).run machine).2 = result at changes ended
  cases changes with
  | unread _ same => exact Or.inl (congrArg (·.read manager.store.confPath) same)
  | refused _ _ same => exact Or.inl (congrArg (·.read manager.store.confPath) same)
  | unsaved _ _ failed left =>
    rw [left]
    exact Store.read_of_persist_failed stamped formed settled failed
  | saved =>
    rw [committed_reported] at ended
    cases ended

theorem settled_afterAll (stamped : ∀ time, '/' ∉ manager.store.stamp time)
    (looks : ∀ path, (manager.probe path).OnlyAsks Effect.looks)
    (formed : machine.disk.WellFormed) (settled : manager.store.Settled machine.disk)
    (requests : List Request) :
    manager.store.Settled (manager.afterAll requests machine).disk := by
  refine (afterAll_invariant
    (fun state => state.disk.WellFormed ∧ manager.store.Settled state.disk) ?_
    ⟨formed, settled⟩ requests).2
  rintro state request ⟨formed, settled⟩
  exact ⟨manager.wellFormed_change formed request,
    settled_change stamped looks formed settled request⟩

/-- The last of some changes one after the other is in effect, if there are any. -/
def EndsCommitted (manager : Manager) (requests : List Request) (machine : Machine) : Prop :=
  ∀ result ∈ (manager.results requests machine).getLast?, committed result = true

instance (manager : Manager) (requests : List Request) (machine : Machine) :
    Decidable (manager.EndsCommitted requests machine) :=
  inferInstanceAs (Decidable (∀ result ∈ (manager.results requests machine).getLast?,
    committed result = true))

/-- The live file is as the last change has left it that is in effect, or it is a directory. -/
theorem exists_endsCommitted (stamped : ∀ time, '/' ∉ manager.store.stamp time)
    (looks : ∀ path, (manager.probe path).OnlyAsks Effect.looks)
    (formed : machine.disk.WellFormed) (settled : manager.store.Settled machine.disk)
    (requests : List Request) :
    (∃ earlier, earlier <+: requests ∧ manager.EndsCommitted earlier machine ∧
      (manager.afterAll requests machine).disk.read manager.store.confPath =
        (manager.afterAll earlier machine).disk.read manager.store.confPath) ∨
      (manager.afterAll requests machine).disk.read manager.store.confPath =
        .error .isDirectory := by
  induction requests using List.reverseRecOn with
  | nil => exact Or.inl ⟨[], List.prefix_rfl, nofun, rfl⟩
  | append_singleton former last ih =>
    have formedFormer : (manager.afterAll former machine).disk.WellFormed :=
      wellFormed_afterAll formed _
    have settledFormer := settled_afterAll stamped looks formed settled former
    cases ended : committed ((manager.change last).run (manager.afterAll former machine)).2 with
    | true =>
      refine Or.inl ⟨former ++ [last], List.prefix_rfl, fun result member => ?_, rfl⟩
      rw [results_concat, List.getLast?_concat, Option.mem_some] at member
      exact member ▸ ended
    | false =>
      rw [afterAll_concat]
      rcases read_of_not_committed stamped looks formedFormer settledFormer ended with
        same | directory
      · rw [same]
        refine ih.imp_left ?_
        rintro ⟨earlier, before, committed, shown⟩
        exact ⟨earlier, before.trans (List.prefix_append _ _), committed, shown⟩
      · exact Or.inr directory

theorem perform_of_shares {effect : Effect}
    {next : effect.Answer → Script (Except ChangeError (List Share))}
    (lists : Script.ask effect next = manager.shares) (machine : Machine) :
    (machine.perform effect).1 = machine ∧ next (machine.perform effect).2 =
      .done (manager.told (machine.disk.read manager.store.confPath)) := by
  rw [shares_eq_ask] at lists
  cases lists
  exact ⟨rfl, rfl⟩

end Manager

end SambaShares
