import SambaShares.Document.Extent
/-!
The three changes to a document: a block is added at the end, exchanged, or removed. Every other
block keeps its lines; only a separator or the kept trailer of a removed block is added after
them.
-/

namespace SambaShares.Document

/-- Adds lines at the end of the last of these blocks, or of the preamble if there is none. -/
def extendLast (preamble : List Text) (lines : List Text) : List Block → List Text × List Block
  | [] => (preamble ++ lines, [])
  | [last] => (preamble, [{ last with lines := last.lines ++ lines }])
  | first :: second :: rest =>
    let (before, blocks) := extendLast preamble lines (second :: rest)
    (before, first :: blocks)

def lastLine? (document : Document) : Option Text := document.allLines.getLast?

/-- The empty line that keeps a new block apart from what stands before it. There is none after
a blank line or in a document without lines. -/
def separator (document : Document) : List Text :=
  match document.lastLine? with
  | some line => if line.isBlankText then [] else [[]]
  | none => []

def push (document : Document) (block : Block) : Document :=
  let (preamble, blocks) := extendLast document.preamble document.separator document.blocks
  ⟨preamble, blocks ++ [block], true⟩

def replace (document : Document) (index : Nat) (block : Block) : Document :=
  { document with blocks := document.blocks.set index block }

/-- Removes the block at `index`. The kept part of its trailer goes to the block before it, or to
the preamble. -/
def remove (document : Document) (index : Nat) : Document :=
  match document.blocks[index]? with
  | none => document
  | some block =>
    let (preamble, before) :=
      extendLast document.preamble block.keptOnDelete (document.blocks.take index)
    { document with preamble, blocks := before ++ document.blocks.drop (index + 1) }

end SambaShares.Document
