import SambaShares.Proofs.Manager.Refinement
/-!
Changes one after the other, each from what the one before has left. Of several requests to add a
share of the same name, up to case, to a file without it, the first one is carried out and all others
are refused.
-/

namespace SambaShares

namespace Registry

theorem taken_congr (registry : Registry) {name other : Text} (except? : Option Text)
    (same : Text.sameName name other = true) :
    registry.taken name except? = registry.taken other except? := by
  simp only [taken, Text.sameName, beq_iff_eq] at same ⊢
  rw [same]

theorem taken_push {document : Document} {spec : ShareSpec}
    (managed : isReserved spec.name = false) :
    (ofDocument (document.push spec.toBlock)).taken spec.name none = true := by
  by_contra free
  rw [Bool.not_eq_true, taken_ofDocument_eq_false_iff] at free
  have read := @Share.ofBlock?_of_managed spec.toBlock managed
  have member : Share.ofDirectives spec.name spec.toBlock.directives ∈
      (document.push spec.toBlock).shares := by
    rw [Document.shares_eq_filterMap, Document.sections_push]
    exact List.mem_filterMap.2 ⟨spec.toBlock.toSection, by simp, read⟩
  have apart := free _ member (by simp)
  rw [Share.name_ofDirectives, Text.sameName_refl] at apart
  cases apart

end Registry

/-- A request to add a share of this name up to case, with which nothing else is wrong. -/
structure ShareSpec.Rival (name : Text) (spec : ShareSpec) : Prop where
  same : Text.sameName spec.name name = true
  accepted : spec.Accepted
  managed : isReserved spec.name = false
  path : spec.path ≠ []

theorem ShareSpec.Rival.addShare {document : Document} {name : Text} {spec : ShareSpec}
    {probe : Text → Bool} (rival : spec.Rival name) (found : probe spec.path = true) :
    document.addShare probe spec =
      if (Registry.ofDocument document).taken name none then .error (.nameConflict spec.name)
      else .ok (document.push spec.toBlock) := by
  obtain ⟨checked, fields⟩ := ShareSpec.accepted_iff.1 rival.accepted
  have path := Document.checkPath_eq_ok_iff.2 ⟨rival.path, found⟩
  have taken := (Registry.ofDocument document).taken_congr none rival.same
  simp only [Document.addShare, checked, fields, path, Document.checkFree, rival.managed, taken,
    bind, Except.bind, pure, Except.pure, Bool.false_or]
  cases (Registry.ofDocument document).taken name none <;> rfl

namespace Manager

variable {manager : Manager} {machine : Machine} {Caller : Type}

/-- The machine after changes one after the other. -/
def afterAll (manager : Manager) (requests : List Request) (machine : Machine) : Machine :=
  ((manager.changeAll requests).run machine).1

/-- How they end. -/
def results (manager : Manager) (requests : List Request) (machine : Machine) :
    List (Except ChangeError Text) :=
  ((manager.changeAll requests).run machine).2

@[simp] theorem afterAll_nil (manager : Manager) (machine : Machine) :
    manager.afterAll [] machine = machine := rfl

@[simp] theorem afterAll_cons (manager : Manager) (request : Request) (rest : List Request)
    (machine : Machine) :
    manager.afterAll (request :: rest) machine =
      manager.afterAll rest ((manager.change request).run machine).1 := by
  simp only [afterAll, changeAll, Script.run_bind, Script.run_done]

@[simp] theorem results_nil (manager : Manager) (machine : Machine) :
    manager.results [] machine = [] := rfl

@[simp] theorem results_cons (manager : Manager) (request : Request) (rest : List Request)
    (machine : Machine) :
    manager.results (request :: rest) machine =
      ((manager.change request).run machine).2 ::
        manager.results rest ((manager.change request).run machine).1 := by
  simp only [results, changeAll, Script.run_bind, Script.run_done]

theorem afterAll_concat (manager : Manager) (requests : List Request) (last : Request)
    (machine : Machine) :
    manager.afterAll (requests ++ [last]) machine =
      ((manager.change last).run (manager.afterAll requests machine)).1 := by
  induction requests generalizing machine with
  | nil => rw [List.nil_append, afterAll_cons, afterAll_nil, afterAll_nil]
  | cons request rest ih => rw [List.cons_append, afterAll_cons, ih, afterAll_cons]

theorem results_concat (manager : Manager) (requests : List Request) (last : Request)
    (machine : Machine) :
    manager.results (requests ++ [last]) machine = manager.results requests machine ++
      [((manager.change last).run (manager.afterAll requests machine)).2] := by
  induction requests generalizing machine with
  | nil => rw [List.nil_append, results_cons, results_nil, results_nil, afterAll_nil, List.nil_append]
  | cons request rest ih =>
    rw [List.cons_append, results_cons, ih, results_cons, afterAll_cons, List.cons_append]

theorem asked_concat (manager : Manager) (requests : List Request) (last : Request)
    (machine : Machine) :
    (manager.changeAll (requests ++ [last])).asked machine =
      (manager.changeAll requests).asked machine ++
        (manager.change last).asked (manager.afterAll requests machine) := by
  induction requests generalizing machine with
  | nil =>
    simp only [List.nil_append, changeAll, Script.asked_bind, Script.asked, afterAll_nil,
      List.append_nil]
  | cons request rest ih =>
    rw [List.cons_append, afterAll_cons]
    simp only [changeAll, Script.asked_bind, Script.asked, List.append_nil, List.append_assoc, ih]

/-- What every change preserves, any number of them does. -/
theorem afterAll_invariant (holds : Machine → Prop)
    (kept : ∀ machine request, holds machine → holds ((manager.change request).run machine).1)
    (start : holds machine) (requests : List Request) :
    holds (manager.afterAll requests machine) := by
  induction requests generalizing machine with
  | nil => exact start
  | cons request rest ih =>
    rw [afterAll_cons]
    exact ih (kept machine request start)

theorem wellFormed_afterAll (formed : machine.disk.WellFormed) (requests : List Request) :
    (manager.afterAll requests machine).disk.WellFormed :=
  afterAll_invariant (fun state => state.disk.WellFormed)
    (fun _ request formed => manager.wellFormed_change formed request) formed requests

theorem load_congr {first second : Machine} (same : first.disk = second.disk) :
    (manager.load.run first).2 = (manager.load.run second).2 := by
  unfold load
  simp only [Script.run_bind, Script.run_done, Store.load_run, same]

theorem wellFormed_of_load {current : Document}
    (loaded : (manager.load.run machine).2 = .ok current) : current.WellFormed := by
  have found := load_eq_ok loaded
  rw [Store.load_run] at found
  split at found
  · unfold Store.ofBytes at found
    split at found
    · cases found
      exact (Document.canonical_parse _).toWellFormed
    · cases found
  · rw [← Except.ok.inj found]
    exact (Document.canonical_parse Document.builtinText).toWellFormed
  · cases found

/-- Of a request that can only fail for its name it depends on the shares whether it does; then there
is a share of the name. -/
theorem change_rival (stamped : ∀ time, '/' ∉ manager.store.stamp time)
    (looks : ∀ path, (manager.probe path).OnlyAsks Effect.looks)
    (formed : machine.disk.WellFormed) {current : Document}
    (loaded : (manager.load.run machine).2 = .ok current) {name : Text} {spec : ShareSpec}
    (rival : spec.Rival name) (found : manager.found machine spec.path = true)
    (serves : manager.Serves (.add spec) machine) :
    (∃ next, (manager.load.run ((manager.change (.add spec)).run machine).1).2 = .ok next ∧
      (Registry.ofDocument next).taken name none = true) ∧
    if (Registry.ofDocument current).taken name none = true then
      ((manager.change (.add spec)).run machine).2 = .error (.rejected (.nameConflict spec.name))
    else verdict? ((manager.change (.add spec)).run machine).2 = some (.ok ()) := by
  obtain ⟨verdict, ended⟩ := Option.ne_none_iff_exists'.1 ((serves_iff looks).1 serves)
  have does := change_of_verdict stamped looks formed loaded ended
  have plans : (Request.add spec).plan (manager.found machine) current = _ := rival.addShare found
  simp only [plans] at does
  split
  · next taken =>
    rw [if_pos taken] at does
    obtain ⟨rfl, same⟩ := does
    exact ⟨⟨current, (load_congr same).trans loaded, taken⟩, eq_rejected_of_verdict? ended⟩
  · next free =>
    rw [if_neg free] at does plans
    obtain ⟨rfl, written⟩ := does
    have nextFormed := (Change.of_plan plans).wellFormed (wellFormed_of_load loaded)
    have read := @load_of_read manager _ (some (current.push spec.toBlock).render) written
    refine ⟨⟨_, read, ?_⟩, ended⟩
    have taken := @Registry.taken_push current spec rival.managed
    rw [← Registry.ofDocument_parse_render nextFormed,
      Registry.taken_congr _ none rival.same] at taken
    exact taken

/-- Requests of some callers to add shares. -/
def adds (specs : Caller → ShareSpec) (callers : List Caller) : List Request :=
  callers.map fun caller => .add (specs caller)

/-- When its turn comes, each caller finds the path of its share, and the store does not fail. -/
def ServesInTurn (manager : Manager) (specs : Caller → ShareSpec) (callers : List Caller)
    (machine : Machine) : Prop :=
  ∀ earlier caller, earlier ++ [caller] <+: callers →
    let state := manager.afterAll (adds specs earlier) machine
    manager.found state (specs caller).path = true ∧ manager.Serves (.add (specs caller)) state

variable {specs : Caller → ShareSpec} {callers : List Caller} {name : Text}

theorem ServesInTurn.first {caller : Caller} {rest : List Caller}
    (serves : manager.ServesInTurn specs (caller :: rest) machine) :
    manager.found machine (specs caller).path = true ∧
      manager.Serves (.add (specs caller)) machine :=
  serves [] caller (by simp)

theorem ServesInTurn.rest {caller : Caller} {rest : List Caller}
    (serves : manager.ServesInTurn specs (caller :: rest) machine) :
    manager.ServesInTurn specs rest ((manager.change (.add (specs caller))).run machine).1 := by
  intro earlier other inside
  have later := serves (caller :: earlier) other (by simpa using inside)
  rwa [adds, List.map_cons, afterAll_cons] at later

/-- Once there is a share of the name, all are refused. -/
theorem results_of_taken (stamped : ∀ time, '/' ∉ manager.store.stamp time)
    (looks : ∀ path, (manager.probe path).OnlyAsks Effect.looks)
    (formed : machine.disk.WellFormed) {current : Document}
    (loaded : (manager.load.run machine).2 = .ok current)
    (taken : (Registry.ofDocument current).taken name none = true)
    (rivals : ∀ caller, (specs caller).Rival name)
    (serves : manager.ServesInTurn specs callers machine) :
    manager.results (adds specs callers) machine =
      callers.map fun caller => .error (.rejected (.nameConflict (specs caller).name)) := by
  induction callers generalizing machine current with
  | nil => rfl
  | cons caller rest ih =>
    obtain ⟨found, served⟩ := serves.first
    obtain ⟨⟨next, read, still⟩, ended⟩ :=
      change_rival stamped looks formed loaded (rivals caller) found served
    rw [if_pos taken] at ended
    have formedNext := manager.wellFormed_change formed (.add (specs caller))
    rw [adds, List.map_cons, results_cons, ended, List.map_cons]
    exact congrArg _ (ih formedNext read still serves.rest)

/-- Without a share of the name the first is carried out. -/
theorem results_of_free (stamped : ∀ time, '/' ∉ manager.store.stamp time)
    (looks : ∀ path, (manager.probe path).OnlyAsks Effect.looks)
    (formed : machine.disk.WellFormed) {current : Document}
    (loaded : (manager.load.run machine).2 = .ok current)
    (free : (Registry.ofDocument current).taken name none = false)
    (rivals : ∀ caller, (specs caller).Rival name) {first : Caller} {others : List Caller}
    (serves : manager.ServesInTurn specs (first :: others) machine) :
    ∃ result, verdict? result = some (.ok ()) ∧
      manager.results (adds specs (first :: others)) machine = result :: others.map fun caller =>
        .error (.rejected (.nameConflict (specs caller).name)) := by
  obtain ⟨found, served⟩ := serves.first
  obtain ⟨⟨next, read, taken⟩, ended⟩ :=
    change_rival stamped looks formed loaded (rivals first) found served
  rw [free, if_neg Bool.false_ne_true] at ended
  have formedNext := manager.wellFormed_change formed (.add (specs first))
  refine ⟨_, ended, ?_⟩
  rw [adds, List.map_cons, results_cons]
  exact congrArg _ (results_of_taken stamped looks formedNext read taken rivals serves.rest)

end Manager

end SambaShares
