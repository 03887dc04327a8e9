import SambaShares.Document.Line
/-!
The configuration file as a preamble and a sequence of blocks, each a header line with the lines
up to the next header. Reading and writing are inverse to each other, so whatever an operation
leaves alone stays as it was, byte for byte.
-/

namespace SambaShares

/-- A header line and the lines after it up to the next header. -/
structure Block where
  /-- The name between the brackets. -/
  name : Text
  /-- The header line as it stands in the file. -/
  header : Text
  lines : List Text
  deriving DecidableEq, Repr

namespace Block

def plainHeader (name : Text) : Text := '[' :: name ++ [']']

def plain (name : Text) (lines : List Text) : Block := ⟨name, plainHeader name, lines⟩

/-- Whether the section has a meaning of its own and is no share. -/
def isReserved (block : Block) : Bool := SambaShares.isReserved block.name

def directives (block : Block) : List (Text × Text) := block.lines.filterMap Text.directive?

def allLines (block : Block) : List Text := block.header :: block.lines

end Block

/-- A configuration file: the lines before the first header, the blocks, and whether the last
line is ended by a line feed. -/
structure Document where
  preamble : List Text := []
  blocks : List Block := []
  endsInNewline : Bool := false
  deriving DecidableEq, Repr

namespace Document

/-- Deals lines out to the preamble and the blocks. -/
def deal : List Text → List Text × List Block
  | [] => ([], [])
  | line :: rest =>
    let (before, blocks) := deal rest
    match line.header? with
    | some name => ([], ⟨name, line, before⟩ :: blocks)
    | none => (line :: before, blocks)

def ofLines (lines : List Text) (endsInNewline : Bool) : Document :=
  ⟨(deal lines).1, (deal lines).2, endsInNewline⟩

/-- Reads a file. An empty file has no lines at all. -/
def parse (text : Text) : Document :=
  if text.isEmpty then {}
  else if text.getLast? = some '\n' then ofLines (Text.lines text.dropLast) true
  else ofLines (Text.lines text) false

def allLines (document : Document) : List Text :=
  document.preamble ++ document.blocks.flatMap Block.allLines

/-- Writes a file. Without a line there is no line feed either. -/
def render (document : Document) : Text :=
  Text.ofLines document.allLines ++
    if document.endsInNewline && !document.allLines.isEmpty then ['\n'] else []

def isEmpty (document : Document) : Bool := document.preamble.isEmpty && document.blocks.isEmpty

/-- The index of the first block of exactly this name. -/
def position? (document : Document) (name : Text) : Option Nat :=
  document.blocks.findIdx? (·.name == name)

/-- The first block of exactly this name. -/
def block? (document : Document) (name : Text) : Option Block :=
  document.blocks.find? (·.name == name)

end Document

end SambaShares
