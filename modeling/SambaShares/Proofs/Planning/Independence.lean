import SambaShares.Proofs.Planning.Overwrite
/-!
Requests about different shares. The lines that a removed share leaves to the section before it say
nothing and do not belong to the share of that section. So the section is written anew, or removed,
as if they were not there, and they stay behind what is made of it; hence it does not matter which
of two requests comes first, wherever their sections stand.
-/

namespace SambaShares

namespace Block

/-- Lines that say nothing and do not belong to the share of the section that they stand behind. -/
structure Loose (moved : List Text) : Prop where
  silent : ∀ line ∈ moved, line.directive? = none
  closed : ∀ line, moved.head? = some line → line.closesExtent = true

theorem loose_nil : Loose [] := ⟨by simp, by simp⟩

theorem loose_keptOnDelete (block : Block) : Loose block.keptOnDelete :=
  ⟨fun _ => Document.directive?_of_mem_keptOnDelete, fun _ => closesExtent_of_head?_keptOnDelete⟩

def extended (block : Block) (moved : List Text) : Block :=
  { block with lines := block.lines ++ moved }

@[simp] theorem extended_nil (block : Block) : block.extended [] = block := by
  simp [extended]

@[simp] theorem owned_extended (block : Block) {moved : List Text} (loose : Loose moved) :
    (block.extended moved).owned = block.owned := block.owned_append loose.closed

variable {moved : List Text}

theorem trailer_extended (block : Block) (loose : Loose moved) :
    (block.extended moved).trailer = block.trailer ++ moved := by
  have whole := (block.extended moved).owned_append_trailer
  have lines : (block.extended moved).lines = block.owned ++ (block.trailer ++ moved) := by
    rw [← List.append_assoc, block.owned_append_trailer]
    rfl
  rw [block.owned_extended loose, lines] at whole
  exact List.append_cancel_left whole

theorem filter_trailer_extended (block : Block) (loose : Loose moved) {keep : Text → Bool}
    (all : ∀ line ∈ moved, keep line = true) :
    (block.extended moved).trailer.filter keep = block.trailer.filter keep ++ moved := by
  rw [block.trailer_extended loose, List.filter_append, List.filter_eq_self.2 all]

theorem keptOnUpdate_extended (block : Block) (loose : Loose moved) :
    (block.extended moved).keptOnUpdate = block.keptOnUpdate ++ moved := by
  refine block.filter_trailer_extended loose fun line member => ?_
  simp [Text.isManaged, loose.silent line member]

theorem keptOnDelete_extended (block : Block) (loose : Loose moved) :
    (block.extended moved).keptOnDelete = block.keptOnDelete ++ moved := by
  refine block.filter_trailer_extended loose fun line member => ?_
  simp [loose.silent line member]

end Block

theorem ShareSpec.renewBlock_extended (spec : ShareSpec) (block : Block) {moved : List Text}
    (loose : Block.Loose moved) :
    spec.renewBlock (block.extended moved) = (spec.renewBlock block).extended moved := by
  have tail : (block.extended moved).blankTail = block.blankTail := by
    rw [Block.blankTail, block.owned_extended loose, Block.blankTail]
  simp only [renewBlock, tail, block.keptOnUpdate_extended loose]
  simp [Block.plain, Block.extended]

namespace Document

def followedBy (front : Document) (after : List Block) : Document :=
  { front with blocks := front.blocks ++ after }

@[simp] theorem followedBy_nil (front : Document) : front.followedBy [] = front := by
  simp [followedBy]

@[simp] theorem followedBy_followedBy (front : Document) (between after : List Block) :
    (front.followedBy between).followedBy after = front.followedBy (between ++ after) := by
  simp [followedBy]

@[simp] theorem extend_nil (document : Document) : document.extend [] = document := by
  rcases cases_last document with ⟨preamble, ends, rfl⟩ | ⟨preamble, front, last, ends, rfl⟩
  · simp
  · simp

theorem extend_extend (document : Document) (lines moved : List Text) :
    (document.extend lines).extend moved = document.extend (lines ++ moved) := by
  rcases cases_last document with ⟨preamble, ends, rfl⟩ | ⟨preamble, front, last, ends, rfl⟩
  · simp
  · simp

theorem extend_followedBy_concat (front : Document) (between : List Block) (last : Block)
    (moved : List Text) : (front.followedBy (between ++ [last])).extend moved =
      front.followedBy (between ++ [last.extended moved]) := by
  simp only [followedBy, ← List.append_assoc, extend_concat]
  rfl

theorem map_name_extend (document : Document) (lines : List Text) :
    (document.extend lines).blocks.map Block.name = document.blocks.map Block.name := by
  rcases cases_last document with ⟨preamble, ends, rfl⟩ | ⟨preamble, front, last, ends, rfl⟩
  · rfl
  · simp

theorem name_of_mem_extend {document : Document} {lines : List Text} {block : Block}
    (member : block ∈ (document.extend lines).blocks) :
    ∃ source ∈ document.blocks, source.name = block.name := by
  have named := List.mem_map_of_mem (f := Block.name) member
  rw [map_name_extend] at named
  exact List.mem_map.1 named

/-- The document up to a block that was written anew as asked for, or removed. -/
def settle (front : Document) (block : Block) : Option ShareSpec → Document
  | some spec => front.followedBy [spec.renewBlock block]
  | none => front.extend block.keptOnDelete

@[simp] theorem settle_some (front : Document) (block : Block) (spec : ShareSpec) :
    front.settle block (some spec) = front.followedBy [spec.renewBlock block] := rfl

@[simp] theorem settle_none (front : Document) (block : Block) :
    front.settle block none = front.extend block.keptOnDelete := rfl

theorem settle_extended (front : Document) (block : Block) (renewal : Option ShareSpec)
    {moved : List Text} (loose : Block.Loose moved) :
    front.settle (block.extended moved) renewal = (front.settle block renewal).extend moved := by
  cases renewal with
  | none => rw [settle_none, block.keptOnDelete_extended loose, settle_none, extend_extend]
  | some spec =>
    rw [settle_some, spec.renewBlock_extended block loose, settle_some]
    exact (front.extend_followedBy_concat [] _ moved).symm

theorem name_of_mem_settle {front : Document} {block other : Block} {renewal : Option ShareSpec}
    (member : other ∈ (front.settle block renewal).blocks) :
    (∃ source ∈ front.blocks, source.name = other.name) ∨
      ∃ spec ∈ renewal, spec.name = other.name := by
  cases renewal with
  | none => exact Or.inl (name_of_mem_extend member)
  | some spec =>
    rcases List.mem_append.1 member with before | here
    · exact Or.inl ⟨other, before, rfl⟩
    · exact Or.inr ⟨spec, rfl, by rw [List.mem_singleton.1 here]; rfl⟩

/-- Whatever is made of a block, an earlier one gets loose lines at most, and these stay where they
are whatever is made of that one. -/
theorem settle_later (front : Document) (block : Block) (between : List Block) (later : Block)
    (renewal : Option ShareSpec) (after : List Block) :
    ∃ moved rest, Block.Loose moved ∧
      ((front.followedBy (block :: between)).settle later renewal).followedBy after =
        front.followedBy (block.extended moved :: rest) ∧
      ∀ other, (front.settle (block.extended moved) other).followedBy rest =
        (((front.settle block other).followedBy between).settle later renewal).followedBy after := by
  cases renewal with
  | some spec =>
    refine ⟨[], between ++ spec.renewBlock later :: after, Block.loose_nil, ?_, ?_⟩
    · simp
    · simp
  | none =>
    have loose := later.loose_keptOnDelete
    rcases List.eq_nil_or_concat between with rfl | ⟨others, last, rfl⟩
    · -- The lines go to the block itself.
      refine ⟨later.keptOnDelete, after, loose, ?_, ?_⟩
      · have moves := front.extend_followedBy_concat [] block later.keptOnDelete
        rw [List.nil_append, List.nil_append] at moves
        rw [settle_none, moves, followedBy_followedBy, List.singleton_append]
      · intro other
        rw [front.settle_extended block other loose, followedBy_nil, settle_none]
    · rw [List.concat_eq_append]
      refine ⟨[], others ++ last.extended later.keptOnDelete :: after, Block.loose_nil, ?_, ?_⟩
      · have moves := front.extend_followedBy_concat (block :: others) last later.keptOnDelete
        rw [List.cons_append, List.cons_append] at moves
        rw [settle_none, moves]
        simp
      · intro other
        have moves := (front.settle block other).extend_followedBy_concat others last
          later.keptOnDelete
        rw [settle_none, moves]
        simp

end Document

namespace Request

/-- The share that a request is about, if it has to be there. -/
def about? : Request → Option Text
  | add _ => none
  | update old _ => some old
  | delete name => some name
  | setUsers name _ => some name

/-- What the section of a share is written anew with; none, if it is removed. -/
def renewal? (block : Block) : Request → Option ShareSpec
  | add spec => some spec
  | update _ spec => some spec
  | delete _ => none
  | setUsers _ users =>
    (Share.ofBlock? block).map fun share => { share.toSpec with validUsers := users }

theorem renewal?_extended (request : Request) (block : Block) {moved : List Text}
    (loose : Block.Loose moved) :
    request.renewal? (block.extended moved) = request.renewal? block := by
  have same : Share.ofBlock? (block.extended moved) = Share.ofBlock? block :=
    (Block.Undisturbed.of_silent block loose.silent).share
  cases request with
  | setUsers name users => rw [renewal?, same, renewal?]
  | _ => rfl

end Request

namespace Document

/-- What a request about a share makes of a document: the section of the share is settled, under a name
that is free if it is written anew. -/
structure Settles (document next : Document) (name : Text) (request : Request)
    (before : List Block) (block : Block) (after : List Block) : Prop where
  split : document.Split name before block after
  free : ∀ spec ∈ request.renewal? block, isReserved spec.name = false ∧
    (Registry.ofDocument document).taken spec.name (some name) = false
  shape : next = (settle ⟨document.preamble, before, document.endsInNewline⟩ block
    (request.renewal? block)).followedBy after

variable {document next one two oneTwo twoOne : Document} {request first second : Request}
variable {name other : Text} {before between after front back : List Block} {block later : Block}
variable {probe p q r s : Text → Bool}

theorem exists_settles_of_plan (about : request.about? = some name)
    (planned : request.plan probe document = .ok next) :
    ∃ before block after, document.Settles next name request before block after := by
  cases request with
  | add spec => cases about
  | update old spec =>
    cases about
    obtain ⟨-, -, free, -, before, block, after, split, rfl⟩ := updateShare_eq_ok_iff.1 planned
    refine ⟨before, block, after, split, ?_, ?_⟩
    · simpa [Request.renewal?] using free
    · simp [Request.renewal?, followedBy]
  | delete given =>
    cases about
    obtain ⟨-, before, block, after, split, rfl⟩ := deleteShare_eq_ok_iff.1 planned
    exact ⟨before, block, after, split, by simp [Request.renewal?], rfl⟩
  | setUsers given users =>
    cases about
    obtain ⟨before, block, after, share, split, read, updated⟩ := setShareUsers_eq_ok_iff.1 planned
    obtain ⟨-, -, free, -, front, here, back, found, rfl⟩ := updateShare_eq_ok_iff.1 updated
    obtain ⟨rfl, rfl, rfl⟩ := split.unique found
    refine ⟨before, block, after, split, ?_, ?_⟩
    · simpa [Request.renewal?, read] using free
    · simp [Request.renewal?, read, followedBy]

theorem settles_of_plan (about : request.about? = some name)
    (planned : request.plan probe document = .ok next)
    (split : document.Split name before block after) :
    document.Settles next name request before block after := by
  obtain ⟨_, _, _, settles⟩ := exists_settles_of_plan about planned
  obtain ⟨rfl, rfl, rfl⟩ := split.unique settles.split
  exact settles

/-- A later section is still the first of its name, and as it was. -/
theorem Settles.split_later
    (settles : document.Settles one name first before block (between ++ later :: after))
    (split : document.Split other (before ++ block :: between) later after) (apart : name ≠ other) :
    one.Split other ((settle ⟨document.preamble, before, document.endsInNewline⟩ block
      (first.renewal? block)).blocks ++ between) later after where
  blocks := by simp [settles.shape, followedBy]
  named := split.named
  first := by
    intro source member
    rcases List.mem_append.1 member with settled | inside
    · rcases name_of_mem_settle settled with ⟨same, front, named⟩ | ⟨spec, asked, named⟩
      · rw [← named]
        exact split.first same (List.mem_append_left _ front)
      · obtain ⟨managed, free⟩ := settles.free spec asked
        have excepted : some later.name ≠ some name := by simpa [split.named] using apart.symm
        rw [← named, ← split.named]
        exact (name_ne_of_free managed free split.mem excepted).symm
    · exact split.first source (by simp [inside])

/-- An earlier section is still the first of its name; it has loose lines behind it at most, and does
not need to be there for the later one to be settled in the same way. -/
theorem Settles.split_earlier
    (settles : document.Settles two other second (before ++ block :: between) later after)
    (split : document.Split name before block (between ++ later :: after)) :
    ∃ moved rest, Block.Loose moved ∧ two.Split name before (block.extended moved) rest ∧
      ∀ renewal, (settle ⟨two.preamble, before, two.endsInNewline⟩ (block.extended moved)
          renewal).followedBy rest =
        (((settle ⟨document.preamble, before, document.endsInNewline⟩ block
          renewal).followedBy between).settle later (second.renewal? later)).followedBy after := by
  let front : Document := ⟨document.preamble, before, document.endsInNewline⟩
  obtain ⟨moved, rest, loose, shape, meets⟩ :=
    front.settle_later block between later (second.renewal? later) after
  obtain rfl := settles.shape.trans shape
  exact ⟨moved, rest, loose, ⟨rfl, split.named, split.first⟩, meets⟩

/-- Two requests in either order, the first of them about the section that stands before the other. -/
theorem plan_comm_of_before (aboutName : first.about? = some name)
    (aboutOther : second.about? = some other) (apart : name ≠ other)
    (earlier : document.Split name before block (between ++ later :: after))
    (split : document.Split other (before ++ block :: between) later after)
    (firstDone : first.plan p document = .ok one) (thenSecond : second.plan q one = .ok oneTwo)
    (secondDone : second.plan r document = .ok two) (thenFirst : first.plan s two = .ok twoOne) :
    oneTwo = twoOne := by
  let front : Document := ⟨document.preamble, before, document.endsInNewline⟩
  have settled := settles_of_plan aboutName firstDone earlier
  have thenSettled := settles_of_plan aboutOther thenSecond (settled.split_later split apart)
  have laterSettled := settles_of_plan aboutOther secondDone split
  obtain ⟨moved, rest, loose, kept, meets⟩ := laterSettled.split_earlier earlier
  have lastSettled := settles_of_plan aboutName thenFirst kept
  calc
    oneTwo = (((front.settle block (first.renewal? block)).followedBy between).settle later
        (second.renewal? later)).followedBy after := by
      rw [thenSettled.shape, settled.shape]
      rfl
    _ = (settle ⟨two.preamble, before, two.endsInNewline⟩ (block.extended moved)
        (first.renewal? block)).followedBy rest := (meets _).symm
    _ = twoOne := by rw [lastSettled.shape, first.renewal?_extended block loose]

/-- Of the first sections of two names one stands before the other. -/
theorem Split.order (split : document.Split name before block after)
    (second : document.Split other front later back) (apart : name ≠ other) :
    (∃ between, front = before ++ block :: between ∧ after = between ++ later :: back) ∨
      ∃ between, before = front ++ later :: between ∧ back = between ++ block :: after := by
  have different : block ≠ later := by
    rintro rfl
    exact apart (split.named.symm.trans second.named)
  have same := split.blocks.symm.trans second.blocks
  rcases List.append_eq_append_iff.1 same with ⟨gap, shape, rest⟩ | ⟨gap, shape, rest⟩
  · cases gap with
    | nil => exact absurd (List.cons.inj rest).1 different
    | cons first between =>
      obtain ⟨rfl, later⟩ := List.cons.inj rest
      exact Or.inl ⟨between, shape, later⟩
  · cases gap with
    | nil => exact absurd (List.cons.inj rest).1.symm different
    | cons first between =>
      obtain ⟨rfl, later⟩ := List.cons.inj rest
      exact Or.inr ⟨between, shape, later⟩

end Document

/-- Requests about different shares, to update it, to remove it or to set its users, lead to the same
document in either order, if they succeed in both. -/
theorem Request.plan_comm {document one two oneTwo twoOne : Document} {first second : Request}
    {name other : Text} {p q r s : Text → Bool} (aboutName : first.about? = some name)
    (aboutOther : second.about? = some other) (apart : name ≠ other)
    (firstDone : first.plan p document = .ok one) (thenSecond : second.plan q one = .ok oneTwo)
    (secondDone : second.plan r document = .ok two) (thenFirst : first.plan s two = .ok twoOne) :
    oneTwo = twoOne := by
  obtain ⟨before, block, after, settles⟩ := Document.exists_settles_of_plan aboutName firstDone
  obtain ⟨front, later, back, others⟩ := Document.exists_settles_of_plan aboutOther secondDone
  rcases settles.split.order others.split apart with ⟨between, rfl, rfl⟩ | ⟨between, rfl, rfl⟩
  · exact Document.plan_comm_of_before aboutName aboutOther apart settles.split others.split
      firstDone thenSecond secondDone thenFirst
  · exact (Document.plan_comm_of_before aboutOther aboutName apart.symm others.split settles.split
      secondDone thenFirst firstDone thenSecond).symm

/-- The note of the removed share goes to a share that is renamed, before or afterwards. -/
theorem Request.plan_comm_note :
    let document : Document :=
      .parse "[b]\n path = /b\n\n[a]\n path = /a\n# note\npath = /n\n\n[c]".toList
    let spec : ShareSpec := { name := "B".toList, path := "/x".toList }
    let one : Document := .parse "[b]\n path = /b\n\n# note\n\n[c]".toList
    let two : Document :=
      ⟨[], .plain "B".toList (spec.settingLines ++ [[]]) :: document.blocks.tail, false⟩
    let oneTwo : Document :=
      .parse ("[B]\n".toList ++ Text.ended spec.settingLines ++ "\n# note\n\n[c]".toList)
    let twoOne : Document :=
      ⟨[], [.plain "B".toList (spec.settingLines ++ [[], "# note".toList, []]),
        .plain "c".toList []], false⟩
    let first : Request := .delete "a".toList
    let second : Request := .update "b".toList spec
    "a".toList ≠ "b".toList ∧ first.about? = some "a".toList ∧ second.about? = some "b".toList ∧
      first.plan (fun _ => true) document = .ok one ∧
      second.plan (fun _ => true) one = .ok oneTwo ∧
      second.plan (fun _ => true) document = .ok two ∧
      first.plan (fun _ => true) two = .ok twoOne ∧ oneTwo = twoOne := by
  intro document spec one two oneTwo twoOne first second
  have apart : "a".toList ≠ "b".toList := by decide
  have firstDone : first.plan (fun _ => true) document = .ok one := by decide +kernel
  have thenSecond : second.plan (fun _ => true) one = .ok oneTwo := by decide +kernel
  have secondDone : second.plan (fun _ => true) document = .ok two := by decide +kernel
  have thenFirst : first.plan (fun _ => true) two = .ok twoOne := by decide +kernel
  exact ⟨apart, rfl, rfl, firstDone, thenSecond, secondDone, thenFirst,
    plan_comm rfl rfl apart firstDone thenSecond secondDone thenFirst⟩

end SambaShares
