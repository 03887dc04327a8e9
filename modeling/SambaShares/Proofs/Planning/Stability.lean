import SambaShares.Proofs.Planning.Independence
import SambaShares.Proofs.Planning.ReadBack
/-!
A share that is rewritten with its own values. What is read of a share that was written is in the form
in which it is written again, and its block keeps its blank lines and its trailer, but for an empty
last line that is lost when the file has no last line feed. So the first rewriting may change the
text, and each later one gives it again, byte for byte.
-/

namespace SambaShares

namespace ShareSpec

/-- The share that was asked for can be asked for. -/
theorem Accepted.toSpec_share {spec : ShareSpec} (accepted : spec.Accepted) :
    spec.share.toSpec.Accepted where
  named := accepted.named
  name := accepted.name
  path := fun c inside => accepted.path c (Text.mem_of_mem_strip inside)
  comment := fun c inside => accepted.comment c (Text.mem_of_mem_strip inside)
  users := by
    intro user member c inside
    exact (accepted.user_clean member).2 c (Text.mem_of_mem_strip inside)

theorem normalizedComment_share (spec : ShareSpec) :
    spec.share.toSpec.normalizedComment = spec.normalizedComment :=
  Text.strip_strip_of_imp spec.comment fun _ same => same

theorem normalizedUsers_share (spec : ShareSpec) :
    spec.share.toSpec.normalizedUsers = spec.normalizedUsers :=
  normalizeUsers_normalizeUsers spec.validUsers

/-- What is read of a share is written as it was, if its path had no white space around it. -/
theorem blockWith_share {spec : ShareSpec} (trimmed : spec.path.trim = spec.path) :
    spec.share.toSpec.blockWith = spec.blockWith := by
  have path : spec.share.toSpec.path = spec.path := trimmed
  have lines : spec.share.toSpec.settingLines = spec.settingLines := by
    simp only [settingLines, path, spec.normalizedComment_share, spec.normalizedUsers_share]
    rfl
  funext count kept
  rw [blockWith, lines]
  rfl

/-- A block as it is written for a share, with any blank lines and any trailer. -/
def Wrote (spec : ShareSpec) (block : Block) : Prop :=
  ∃ count kept, Block.IsKept kept ∧ block = spec.blockWith count kept

theorem wrote_renewBlock (spec : ShareSpec) (old : Block) : spec.Wrote (spec.renewBlock old) :=
  ⟨_, _, old.isKept_keptOnUpdate, rfl⟩

theorem Wrote.renewBlock_eq {spec : ShareSpec} {block : Block} (wrote : spec.Wrote block) :
    spec.renewBlock block = block := by
  obtain ⟨count, kept, isKept, rfl⟩ := wrote
  exact spec.renewBlock_blockWith spec count isKept

theorem Wrote.name {spec : ShareSpec} {block : Block} (wrote : spec.Wrote block) :
    block.name = spec.name := by
  obtain ⟨count, kept, -, rfl⟩ := wrote
  rfl

theorem renewBlock_share {spec : ShareSpec} {block : Block}
    (trimmed : spec.path.trim = spec.path) (wrote : spec.Wrote block) :
    spec.share.toSpec.renewBlock block = block := by
  rw [ShareSpec.renewBlock_eq, blockWith_share trimmed, ← ShareSpec.renewBlock_eq,
    wrote.renewBlock_eq]

/-- An empty last line of a written block is a line of its trailer or one of the blank lines. -/
theorem Wrote.of_extended {spec : ShareSpec} {block : Block}
    (wrote : spec.Wrote (block.extended [[]])) : spec.Wrote block := by
  obtain ⟨count, kept, isKept, shape⟩ := wrote
  rcases block with ⟨name, header, lines⟩
  obtain ⟨rfl, rfl, whole⟩ : name = spec.name ∧ header = Block.plainHeader spec.name ∧
      lines ++ [[]] = spec.settingLines ++ List.replicate count [] ++ kept := by
    simpa [Block.extended, blockWith, Block.plain] using shape
  rcases List.eq_nil_or_concat kept with rfl | ⟨front, last, rfl⟩
  · cases count with
    | zero =>
      have settings : lines ++ [[]] = spec.settingLines := by simpa using whole
      have member : [] ∈ spec.settingLines := by simp [← settings]
      cases isBlankText_of_mem_settingLines member
    | succ count =>
      rw [List.append_nil, List.replicate_succ', ← List.append_assoc] at whole
      have before := (List.append_inj' whole rfl).1
      exact ⟨count, [], isKept, by simp [blockWith, Block.plain, before]⟩
  · rw [List.concat_eq_append, ← List.append_assoc] at whole
    have before := (List.append_inj' whole rfl).1
    refine ⟨count, front, ⟨?_, ?_⟩, by simp [blockWith, Block.plain, before]⟩
    · intro line first
      exact isKept.closed line (by simp [first])
    · intro line member
      exact isKept.unmanaged line (by simp [member])

end ShareSpec

namespace Document

variable {probe : Text → Bool} {document next : Document} {name : Text} {spec : ShareSpec}
variable {before after : List Block} {block renewed : Block}

/-- Lines at the end of a document are behind one of its blocks at most. -/
theorem exists_blocks_of_extend {rest : Document} {lines : List Text}
    (shape : (rest.extend lines).blocks = before ++ block :: after) :
    ∃ source back, rest.blocks = before ++ source :: back ∧
      (block = source ∨ block = source.extended lines) := by
  rcases cases_last rest with ⟨preamble, ends, rfl⟩ | ⟨preamble, front, last, ends, rfl⟩
  · simp at shape
  · rw [extend_concat] at shape
    rcases List.eq_nil_or_concat after with rfl | ⟨others, final, rfl⟩
    · obtain ⟨rfl, same⟩ := List.append_inj' shape rfl
      exact ⟨last, [], rfl, Or.inr (List.cons.inj same).1.symm⟩
    · rw [List.concat_eq_append, ← List.cons_append, ← List.append_assoc] at shape
      obtain ⟨rfl, -⟩ := List.append_inj' shape rfl
      exact ⟨block, others ++ [last], by simp, Or.inl rfl⟩

/-- Read from the text of a document, a written section is still one, and in its place. -/
theorem Split.parse_render (split : document.Split name before block after)
    (formed : document.WellFormed) (wrote : spec.Wrote block) : ∃ source back,
      (parse document.render).Split name before source back ∧ spec.Wrote source := by
  have named : spec.name = name := wrote.name.symm.trans split.named
  have found : ∃ source back,
      (parse document.render).blocks = before ++ source :: back ∧ spec.Wrote source := by
    by_cases newline : document.LosesNewline
    · rw [formed.reread.newline newline]
      exact ⟨block, after, split.blocks, wrote⟩
    · by_cases line : document.LosesLine
      · obtain ⟨rest, whole, read⟩ := formed.reread.line line
        have shape := split.blocks
        rw [whole] at shape
        obtain ⟨source, back, found, rfl | rfl⟩ := exists_blocks_of_extend shape
        · exact ⟨block, back, by rw [read]; exact found, wrote⟩
        · exact ⟨source, back, by rw [read]; exact found, wrote.of_extended⟩
      · rw [formed.reread.same.2 ⟨newline, line⟩]
        exact ⟨block, after, split.blocks, wrote⟩
  obtain ⟨source, back, shape, still⟩ := found
  exact ⟨source, back, ⟨shape, still.name.trans named, split.first⟩, still⟩

theorem touchShare_eq_ok_iff : document.touchShare probe name = .ok next ↔ ∃ share,
    (Registry.ofDocument document).lookup name = some share ∧
      document.updateShare probe name share.toSpec = .ok next := by
  unfold touchShare
  rw [bind_eq_ok_iff]
  refine exists_congr fun share => and_congr_left fun _ => ?_
  rw [findShare_eq_ok_iff, Registry.lookup_ofDocument_eq_some_iff]

/-- The name of a share is free for it again when it was written anew. -/
theorem Split.free_exchange (split : document.Split name before block after)
    (again : Split ⟨document.preamble, before ++ renewed :: after, document.endsInNewline⟩ name before
      renewed after)
    (free : (Registry.ofDocument document).taken name (some name) = false) :
    (Registry.ofDocument ⟨document.preamble, before ++ renewed :: after,
      document.endsInNewline⟩).taken name (some name) = false := by
  rw [taken_eq_false_iff] at free ⊢
  intro other member apart
  refine free other ?_ apart
  have kept := again.mem_managedNames_exchange member (by simpa using apart) block
  rwa [← split.blocks] at kept

/-- A share that was written with its own values and read again is not changed by doing so once more. -/
theorem touchShare_parse_render (formed : document.WellFormed)
    (planned : document.touchShare probe name = .ok next) :
    (parse next.render).touchShare probe name = .ok (parse next.render) := by
  obtain ⟨share, found, updated⟩ := touchShare_eq_ok_iff.1 planned
  let spec := share.toSpec
  obtain ⟨_, source, _, here, read⟩ := Registry.lookup_ofDocument_eq_some_iff.1 found
  obtain rfl : spec.name = name := (Share.managed_of_ofBlock?_eq_some read).2.trans here.named
  have trimmed : spec.path.trim = spec.path := (Share.isRead_of_ofBlock? read).path
  have written := lookup_of_updateShare formed updated
  have nextFormed := (Change.of_updateShare updated).wellFormed formed
  obtain ⟨managed, accepted, ⟨-, free⟩, path, before, block, after, split, rfl⟩ :=
    updateShare_eq_ok_iff.1 updated
  have named : (spec.renewBlock block).name = spec.name := rfl
  have renews := split.exchange managed free named
  have stillFree := split.free_exchange renews free
  rw [← Registry.ofDocument_parse_render nextFormed] at stillFree
  -- The section that is read can lack the empty last line of the one that was written.
  obtain ⟨renewed, back, again, wrote⟩ := renews.parse_render nextFormed (spec.wrote_renewBlock block)
  have stillFound : spec.share.toSpec.path ≠ [] ∧ probe spec.share.toSpec.path = true := by
    rwa [show spec.share.toSpec.path = spec.path from trimmed]
  refine touchShare_eq_ok_iff.2 ⟨spec.share, written, updateShare_eq_ok_iff.2 ⟨managed,
    accepted.toSpec_share, ⟨managed, stillFree⟩, stillFound, before, renewed, back, again, ?_⟩⟩
  rw [ShareSpec.renewBlock_share trimmed wrote, ← again.blocks]

/-- A share of a file is rewritten with its own values: the text of the file before and after. -/
def touchText (probe : Text → Bool) (name text : Text) : Except ShareError Text :=
  ((parse text).touchShare probe name).map render

end Document

/-- What a step from text to text leads to when it is made so many times. -/
def Text.repeatedly (step : Text → Except ShareError Text) : Nat → Text → Except ShareError Text
  | 0, text => .ok text
  | count + 1, text => step text >>= repeatedly step count

theorem Text.repeatedly_of_settled {step : Text → Except ShareError Text} {text : Text}
    (settled : step text = .ok text) (count : Nat) : repeatedly step count text = .ok text := by
  induction count with
  | zero => rfl
  | succ count ih =>
    rw [repeatedly, settled]
    exact ih

theorem Text.repeatedly_succ_of_settled {step : Text → Except ShareError Text} {text once : Text}
    (first : step text = .ok once) (settled : step once = .ok once) (count : Nat) :
    repeatedly step (count + 1) text = .ok once := by
  rw [repeatedly, first]
  exact repeatedly_of_settled settled count

namespace Document

/-- To rewrite a share with its own values settles after one step: what the first rewriting makes of a
text is what every number of them makes of it. -/
theorem touchText_settles {probe : Text → Bool} {name text once : Text}
    (done : touchText probe name text = .ok once) :
    touchText probe name once = .ok once ∧
      ∀ count, Text.repeatedly (touchText probe name) (count + 1) text = .ok once := by
  obtain ⟨next, planned, rfl⟩ : ∃ next,
      (parse text).touchShare probe name = .ok next ∧ next.render = once := by
    unfold touchText at done
    cases planned : (parse text).touchShare probe name with
    | error e =>
      rw [planned] at done
      cases done
    | ok next =>
      rw [planned] at done
      exact ⟨next, rfl, Except.ok.inj done⟩
  have settled : touchText probe name next.render = .ok next.render := by
    rw [touchText, touchShare_parse_render (canonical_parse text).toWellFormed planned, Except.map,
      render_parse]
  exact ⟨settled, Text.repeatedly_succ_of_settled done settled⟩

/-- White space in the comment, a user who is repeated and an empty last line without a line feed go
with the first rewriting, and nothing after that. -/
theorem touchText_settles_hand_edited :
    let text := "[m]\npath = /srv\nwritable = 1\ncomment = \" a \"\nvalid users = eve %S eve\n\n ".toList
    let spec : ShareSpec :=
      { name := "m".toList, path := "/srv".toList, comment := "a".toList,
        validUsers := ["eve".toList] }
    let once := "[m]\n".toList ++ Text.ended spec.settingLines ++ "\n".toList
    touchText (fun _ => true) "m".toList text = .ok once ∧
      touchText (fun _ => true) "m".toList once = .ok once ∧
      ∀ count, Text.repeatedly (touchText (fun _ => true) "m".toList) (count + 1) text = .ok once := by
  intro text spec once
  have done : touchText (fun _ => true) "m".toList text = .ok once := by decide +kernel
  exact ⟨done, touchText_settles done⟩

end Document

end SambaShares
