import SambaShares.Planning
import SambaShares.Proofs.Checks
import SambaShares.Proofs.Registry
import SambaShares.Proofs.Share.Written
/-!
Exactly when a request succeeds, and the document it then leads to. A successful request adds a
block at the end, exchanges the first block of a name or removes it; later modules build on this
and do not look at the checks again.
-/

namespace SambaShares

namespace Document

theorem checkPath_eq_ok_iff {probe : Text → Bool} {path : Text} :
    checkPath probe path = .ok () ↔ path ≠ [] ∧ probe path = true := by
  unfold checkPath
  by_cases none : path = []
  · simp [none]
  · cases probed : probe path <;> simp [none]

theorem checkFree_eq_ok_iff {document : Document} {name : Text} {except? : Option Text} :
    document.checkFree name except? = .ok () ↔
      isReserved name = false ∧ (Registry.ofDocument document).taken name except? = false := by
  unfold checkFree
  cases isReserved name <;> cases (Registry.ofDocument document).taken name except? <;> simp

theorem managedPosition_eq_ok_iff {document : Document} {name : Text} {index : Nat} :
    document.managedPosition name = .ok index ↔ isReserved name = false ∧
      ∃ before block after, document.Split name before block after ∧ before.length = index := by
  unfold managedPosition
  by_cases contained : (Registry.ofDocument document).contains name = true
  · have managed := (Registry.contains_ofDocument_iff.1 contained).1
    rw [if_pos contained, ← position?_eq_some_iff]
    cases document.position? name <;> simp [managed]
  · rw [if_neg contained]
    simp only [reduceCtorEq, false_iff, not_and]
    intro managed found
    obtain ⟨before, block, after, split, -⟩ := found
    exact contained (Registry.contains_ofDocument_iff.2 ⟨managed, before, block, after, split⟩)

theorem findShare_eq_ok_iff {document : Document} {name : Text} {share : Share} :
    document.findShare name = .ok share ↔ ∃ before block after,
      document.Split name before block after ∧ Share.ofBlock? block = some share := by
  rw [← Registry.lookup_ofDocument_eq_some_iff]
  unfold findShare
  cases (Registry.ofDocument document).lookup name <;> simp

theorem addShare_eq_ok_iff {probe : Text → Bool} {document next : Document} {spec : ShareSpec} :
    document.addShare probe spec = .ok next ↔
      spec.Accepted ∧ (spec.path ≠ [] ∧ probe spec.path = true) ∧
        (isReserved spec.name = false ∧
          (Registry.ofDocument document).taken spec.name none = false) ∧
        next = document.push spec.toBlock := by
  unfold addShare
  rw [ShareSpec.accepted_iff, ← checkPath_eq_ok_iff, ← checkFree_eq_ok_iff]
  simp only [check_bind_eq_ok_iff, pure, Except.pure, Except.ok.injEq, and_assoc,
    eq_comm (a := next)]

theorem updateShare_eq_ok_iff {probe : Text → Bool} {document next : Document} {old : Text}
    {spec : ShareSpec} :
    document.updateShare probe old spec = .ok next ↔
      isReserved old = false ∧ spec.Accepted ∧
        (isReserved spec.name = false ∧
          (Registry.ofDocument document).taken spec.name (some old) = false) ∧
        (spec.path ≠ [] ∧ probe spec.path = true) ∧
        ∃ before block after, document.Split old before block after ∧
          next = ⟨document.preamble, before ++ spec.renewBlock block :: after,
            document.endsInNewline⟩ := by
  unfold updateShare
  rw [ShareSpec.accepted_iff, ← checkPath_eq_ok_iff, ← checkFree_eq_ok_iff]
  constructor
  · intro planned
    obtain ⟨index, found, planned⟩ := bind_eq_ok_iff.1 planned
    obtain ⟨name, planned⟩ := check_bind_eq_ok_iff.1 planned
    obtain ⟨fields, planned⟩ := check_bind_eq_ok_iff.1 planned
    obtain ⟨free, planned⟩ := check_bind_eq_ok_iff.1 planned
    obtain ⟨path, planned⟩ := check_bind_eq_ok_iff.1 planned
    obtain ⟨managed, before, block, after, split, rfl⟩ := managedPosition_eq_ok_iff.1 found
    refine ⟨managed, ⟨name, fields⟩, free, path, before, block, after, split, ?_⟩
    have here : document.blocks[before.length]? = some block := by simp [split.blocks]
    simp only [here, pure, Except.pure, Except.ok.injEq] at planned
    rw [← planned, replace_length split.blocks]
  · intro allowed
    obtain ⟨managed, ⟨name, fields⟩, free, path, before, block, after, split, rfl⟩ := allowed
    have found : document.managedPosition old = .ok before.length :=
      managedPosition_eq_ok_iff.2 ⟨managed, before, block, after, split, rfl⟩
    have here : document.blocks[before.length]? = some block := by simp [split.blocks]
    simp only [found, name, fields, free, path, here, bind, Except.bind, pure, Except.pure]
    rw [replace_length split.blocks]

theorem deleteShare_eq_ok_iff {document next : Document} {name : Text} :
    document.deleteShare name = .ok next ↔ isReserved name = false ∧
      ∃ before block after, document.Split name before block after ∧
        next = document.without before block after := by
  unfold deleteShare
  rw [bind_eq_ok_iff]
  constructor
  · intro planned
    obtain ⟨index, found, planned⟩ := planned
    obtain ⟨managed, before, block, after, split, rfl⟩ := managedPosition_eq_ok_iff.1 found
    refine ⟨managed, before, block, after, split, ?_⟩
    rw [← remove_length split.blocks]
    exact (Except.ok.inj planned).symm
  · intro allowed
    obtain ⟨managed, before, block, after, split, rfl⟩ := allowed
    refine ⟨before.length, managedPosition_eq_ok_iff.2 ⟨managed, before, block, after, split, rfl⟩, ?_⟩
    rw [remove_length split.blocks]
    rfl

theorem setShareUsers_eq_ok_iff {probe : Text → Bool} {document next : Document} {name : Text}
    {users : List Text} :
    document.setShareUsers probe name users = .ok next ↔ ∃ before block after share,
      document.Split name before block after ∧ Share.ofBlock? block = some share ∧
        document.updateShare probe name { share.toSpec with validUsers := users } = .ok next := by
  unfold setShareUsers
  rw [bind_eq_ok_iff]
  constructor
  · intro planned
    obtain ⟨share, found, planned⟩ := planned
    obtain ⟨before, block, after, split, read⟩ := findShare_eq_ok_iff.1 found
    exact ⟨before, block, after, share, split, read, planned⟩
  · intro allowed
    obtain ⟨before, block, after, share, split, read, planned⟩ := allowed
    exact ⟨share, findShare_eq_ok_iff.2 ⟨before, block, after, split, read⟩, planned⟩

end Document

/-- What a successful request makes of a document. -/
inductive Change (document : Document) : Document → Prop
  | added {spec : ShareSpec} (accepted : spec.Accepted) (managed : isReserved spec.name = false)
      (free : (Registry.ofDocument document).taken spec.name none = false) :
      Change document (document.push spec.toBlock)
  | renewed {old : Text} {spec : ShareSpec} {before after : List Block} {block : Block}
      (split : document.Split old before block after) (oldManaged : isReserved old = false)
      (accepted : spec.Accepted) (managed : isReserved spec.name = false)
      (free : (Registry.ofDocument document).taken spec.name (some old) = false) :
      Change document
        ⟨document.preamble, before ++ spec.renewBlock block :: after, document.endsInNewline⟩
  | removed {name : Text} {before after : List Block} {block : Block}
      (split : document.Split name before block after) (managed : isReserved name = false) :
      Change document (document.without before block after)

theorem Change.of_updateShare {probe : Text → Bool} {document next : Document} {old : Text}
    {spec : ShareSpec} (planned : document.updateShare probe old spec = .ok next) :
    Change document next := by
  obtain ⟨oldManaged, accepted, ⟨managed, free⟩, -, before, block, after, split, rfl⟩ :=
    Document.updateShare_eq_ok_iff.1 planned
  exact .renewed split oldManaged accepted managed free

/-- Every request does one of three things; setting the users of a share renews its block. -/
theorem Change.of_plan {probe : Text → Bool} {document next : Document} {request : Request}
    (planned : request.plan probe document = .ok next) : Change document next := by
  cases request with
  | add spec =>
    obtain ⟨accepted, -, ⟨managed, free⟩, rfl⟩ := Document.addShare_eq_ok_iff.1 planned
    exact .added accepted managed free
  | update old spec => exact .of_updateShare planned
  | delete name =>
    obtain ⟨managed, before, block, after, split, rfl⟩ := Document.deleteShare_eq_ok_iff.1 planned
    exact .removed split managed
  | setUsers name users =>
    obtain ⟨-, -, -, share, -, -, updated⟩ := Document.setShareUsers_eq_ok_iff.1 planned
    exact .of_updateShare updated

end SambaShares
