import SambaShares.Text.Basic
/-!
Arguments of a program, read from the first to the last by rules that say which options there are
and how many other arguments. The first argument that breaks a rule, or asks for something that
ends the reading, decides. The value of an option is checked when the next argument comes.
-/

namespace SambaShares

/-- Why arguments do not lead to a run. -/
inductive Refusal
  | help
  | version
  | misuse
  deriving DecidableEq, Repr

/-- What the value of an option must be, and whether the option may be given again. -/
structure ValueRule where
  accepts : Text → Bool := fun _ => true
  repeats : Bool := false

inductive OptionRole
  /-- To be given or not, at most once. -/
  | flag
  | value (rule : ValueRule)
  /-- To end the reading. Such an option can also be named by a letter. -/
  | ends (letter : Char) (refusal : Refusal)

structure OptionRule where
  name : Text
  role : OptionRole

structure ArgumentRules where
  options : List OptionRule
  /-- The number of arguments that are no options, if it is bounded. -/
  most : Option Nat := some 0

structure Reading where
  /-- The options that were given, with their values; that of a flag is empty. -/
  given : List (Text × Text) := []
  /-- The arguments that are no options. -/
  others : List Text := []
  /-- The last option that has a value, with its value once that is there. -/
  pending : Option (Text × ValueRule × Option Text) := none

namespace Reading

def has (reading : Reading) (name : Text) : Bool := reading.given.any (·.1 == name)

def values (reading : Reading) (name : Text) : List Text :=
  (reading.given.filter (·.1 == name)).map (·.2)

def value? (reading : Reading) (name : Text) : Option Text := (reading.values name).head?

/-- Whether the next argument is the value of an option, unless it looks like an option. -/
def awaitsValue (reading : Reading) : Bool :=
  match reading.pending with
  | some (_, _, none) => true
  | _ => false

def note (reading : Reading) (name value : Text) (repeats : Bool) : Except Refusal Reading :=
  if !repeats && reading.has name then .error .misuse
  else .ok { reading with given := reading.given ++ [(name, value)], pending := none }

/-- Checks the value of the last option and notes the option. -/
def settle (reading : Reading) : Except Refusal Reading :=
  match reading.pending with
  | none => .ok reading
  | some (_, _, none) => .error .misuse
  | some (name, rule, some value) =>
    if rule.accepts value then reading.note name value rule.repeats else .error .misuse

/-- Takes an option, perhaps with a value in the same argument. -/
def take (reading : Reading) (option : OptionRule) (attached? : Option Text) :
    Except Refusal Reading := do
  match option.role, attached? with
  | .flag, none => (← reading.settle).note option.name [] false
  | .ends _ refusal, none =>
    let _ ← reading.settle
    throw refusal
  | .value rule, value? =>
    let settled ← reading.settle
    let waiting := { settled with pending := some (option.name, rule, value?) }
    if value?.isSome then waiting.settle else return waiting
  | _, some _ => throw .misuse

end Reading

namespace OptionRule

def hasLetter (option : OptionRule) (c : Char) : Bool :=
  match option.role with
  | .ends letter _ => letter == c
  | _ => false

end OptionRule

namespace ArgumentRules

def takeOther (rules : ArgumentRules) (reading : Reading) (argument : Text) :
    Except Refusal Reading := do
  let reading ← reading.settle
  let fits := match rules.most with
    | some most => decide (reading.others.length < most)
    | none => true
  if fits then return { reading with others := reading.others ++ [argument] }
  else throw .misuse

/-- The value that follows the first `=` of an argument. -/
def attachedValue? (argument : Text) : Option Text :=
  match argument.dropWhile (· != '=') with
  | [] => none
  | _ :: value => some value

def takeNext (rules : ArgumentRules) (reading : Reading) (argument : Text) :
    Except Refusal Reading :=
  match argument with
  | '-' :: '-' :: long =>
    match rules.options.find? (·.name == long.takeWhile (· != '=')) with
    | some option => reading.take option (attachedValue? long)
    | none => .error .misuse
  | '-' :: letter :: _ =>
    match rules.options.find? (·.hasLetter letter) with
    | some option => reading.take option none
    | none => .error .misuse
  | argument =>
    match reading.pending with
    | some (name, rule, none) => .ok { reading with pending := some (name, rule, some argument) }
    | _ => rules.takeOther reading argument

/-- Reads all arguments. After `--` none of them is an option. -/
def read (rules : ArgumentRules) (reading : Reading) : List Text → Except Refusal Reading
  | [] => reading.settle
  | argument :: rest =>
    if argument == "--".toList then do (← rest.foldlM rules.takeOther reading).settle
    else do rules.read (← rules.takeNext reading argument) rest

end ArgumentRules

end SambaShares
