import SambaShares.Toml.Scalar
/-!
Reading a TOML file. A reader of a part gives the part and what follows it; every reader is total,
because what follows is shorter than what was given. Values nest, and dotted keys reach, no
deeper than `depthLimit`.
-/

namespace SambaShares.Toml

/-- The number of levels at which a value or a key is refused. -/
def depthLimit : Nat := 80

/-- The text after the white space at its start, within the line. -/
def skipSpace (text : Text) : Text := text.dropWhile isSpace

/-- The text after white space, line ends and comments at its start. -/
def skipGaps (text : Text) : Text :=
  match skipSpace text with
  | '\n' :: rest => if rest.length < text.length then skipGaps rest else rest
  | '\r' :: '\n' :: rest => if rest.length < text.length then skipGaps rest else rest
  | '#' :: comment =>
    match comment.dropWhile isPlain with
    | '\n' :: rest => if rest.length < text.length then skipGaps rest else rest
    | '\r' :: '\n' :: rest => if rest.length < text.length then skipGaps rest else rest
    | rest => rest
  | rest => rest
termination_by text.length

/-- What follows the rest of a line on which only white space and a comment stand. -/
def lineEnd? (text : Text) : Option Text :=
  let line := skipSpace text
  let ending := match line with
    | '#' :: comment => comment.dropWhile isPlain
    | line => line
  match ending with
  | [] => some []
  | '\n' :: rest => some rest
  | '\r' :: '\n' :: rest => some rest
  | _ => none

def isKeyChar (c : Char) : Bool := c.isAlphanum || c == '_' || c == '-'

def keyPart? : Text → Option (Text × Text)
  | '"' :: rest => basic rest
  | '\'' :: rest => literal rest
  | text =>
    let part := text.takeWhile isKeyChar
    if part.isEmpty then none else some (part, text.dropWhile isKeyChar)

/-- The parts of a key with dots between them, and what follows. -/
def keyParts? (text : Text) : Option (List Text × Text) :=
  match keyPart? (skipSpace text) with
  | none => none
  | some (part, rest) =>
    match skipSpace rest with
    | '.' :: more =>
      if more.length < text.length then
        (keyParts? more).map fun (parts, rest) => (part :: parts, rest)
      else none
    | rest => some ([part], rest)
termination_by text.length

/-- A key as the path to a table and the key in it. -/
def key? (text : Text) : Option (List Text × Text × Text) :=
  (keyParts? text).bind fun (parts, rest) =>
    if parts.length < depthLimit then
      parts.getLast?.map fun last => (parts.dropLast, last, rest)
    else none

/-- The values of an array after its opening bracket. A comma may follow the last value. -/
def elements? (value? : Text → Option (Item × Text)) (text : Text) : Option (List Item × Text) :=
  match skipGaps text with
  | ']' :: rest => some ([], rest)
  | start =>
    match value? start with
    | none => none
    | some (item, rest) =>
      match skipGaps rest with
      | ',' :: more =>
        if more.length < text.length then
          (elements? value? more).map fun (items, rest) => (item :: items, rest)
        else none
      | ']' :: rest => some ([item], rest)
      | _ => none
termination_by text.length

/-- The pairs of a table in braces, which has one pair at least, added to those before. -/
def pairs? (value? : Text → Option (Item × Text)) (entries : Entries) (text : Text) :
    Option (Entries × Text) :=
  match key? text with
  | none => none
  | some (path, key, rest) =>
    match rest with
    | '=' :: rest =>
      match value? (skipSpace rest) with
      | none => none
      | some (item, rest) =>
        match entries.addValue path key item with
        | none => none
        | some entries =>
          match skipSpace rest with
          | ',' :: more => if more.length < text.length then pairs? value? entries more else none
          | '}' :: rest => some (entries, rest)
          | _ => none
    | _ => none
termination_by text.length

/-- A value, given a reader for the values inside it, if there may be such. -/
def valueWith? (inner? : Option (Text → Option (Item × Text))) :
    Text → Option (Item × Text)
  | '[' :: rest => inner?.bind fun inner =>
    (elements? inner rest).map fun (items, rest) => (.array items, rest)
  | '{' :: rest => inner?.bind fun inner =>
    match skipSpace rest with
    | '}' :: rest => some (.table .braces [], rest)
    | rest => (pairs? inner [] rest).map fun (entries, rest) => (.table .braces entries, rest)
  | text =>
    match text with
    | '"' :: _ => (string? text).map fun (value, rest) => (.text value, rest)
    | '\'' :: _ => (string? text).map fun (value, rest) => (.text value, rest)
    | _ => scalar? text

/-- A value that holds no more than so many levels of arrays and tables. -/
def value? : Nat → Text → Option (Item × Text)
  | 0 => valueWith? none
  | levels + 1 => valueWith? (some (value? levels))

/-- What has been read: the whole table, and the path of the table whose header came last. -/
structure Reading where
  root : Entries := []
  path : List Text := []

def Reading.add (reading : Reading) (path : List Text) (key : Text) (item : Item) :
    Option Reading :=
  (reading.root.change false (fun _ inner => inner.addValue path key item)
    reading.path false).map fun root => { reading with root }

/-- Reads one statement at the start of a line: a header or a pair. -/
def statement? (reading : Reading) : Text → Option (Reading × Text)
  | '[' :: '[' :: text =>
    (key? text).bind fun (path, key, rest) =>
      match rest with
      | ']' :: ']' :: rest =>
        (lineEnd? rest).bind fun rest =>
          (reading.root.openElement path key).map fun root => (⟨root, path ++ [key]⟩, rest)
      | _ => none
  | '[' :: text =>
    (key? text).bind fun (path, key, rest) =>
      match rest with
      | ']' :: rest =>
        (lineEnd? rest).bind fun rest =>
          (reading.root.openTable path key).map fun root => (⟨root, path ++ [key]⟩, rest)
      | _ => none
  | text =>
    (key? text).bind fun (path, key, rest) =>
      match rest with
      | '=' :: rest =>
        (value? (depthLimit - 1) (skipSpace rest)).bind fun (item, rest) =>
          (lineEnd? rest).bind fun rest =>
            (reading.add path key item).map fun reading => (reading, rest)
      | _ => none

/-- Reads the statements of a file, one after the other. -/
def statements? (reading : Reading) (text : Text) : Option Entries :=
  match skipGaps text with
  | [] => some reading.root
  | start =>
    match statement? reading start with
    | none => none
    | some (reading, rest) =>
      if rest.length < text.length then statements? reading rest else none
termination_by text.length

/-- Reads a file. A byte order mark at its start is left out. -/
def parse? : Text → Option Entries
  | '\uFEFF' :: text => statements? {} text
  | text => statements? {} text

end SambaShares.Toml
