/-! # Command-line arguments

A command takes flags, each with or without a value, and possibly operands: a first one and one or
more others.  Arguments are read from left to right (`Arguments.read`):

* `--name`, `--name=value`, `-n`, `-nvalue` and `-n=value` are flags; letters of flags without a
  value can stand in one argument; a value can also be the next argument if that does not start a
  flag itself;
* after `--` everything is an operand;
* where a command takes operands, an argument that is no flag of the command is an operand even if
  it starts with a hyphen, and from the second operand on everything is one.

The first mistake, request for help or request for the version decides, in the order of the
arguments. -/

namespace AgentOptions

/-- What a flag does. -/
inductive FlagUse where
  /-- It stands alone, at most once. -/
  | switch
  /-- It has a value, which may have to be not empty, and may be given again. -/
  | valued (nonEmpty repeatable : Bool)
  | help
  | version
  deriving DecidableEq

/-- A flag of a command. -/
structure Flag where
  long : String
  short : Option Char
  use : FlagUse
  deriving DecidableEq

/-- What a command takes. -/
structure Form where
  flags : List Flag
  takesOperands : Bool

/-- The flag with a letter. -/
def Form.short? (form : Form) (c : Char) : Option Flag :=
  form.flags.find? fun f => f.short == some c

/-- The flag with a name. -/
def Form.long? (form : Form) (name : String) : Option Flag :=
  form.flags.find? fun f => f.long == name

/-- What ends the reading of arguments early. -/
inductive Stop where
  | misuse
  | help
  | version
  deriving DecidableEq

/-- The arguments read: flags with their values (empty for switches), and operands. -/
structure Arguments where
  given : List (String × String)
  operands : List String

namespace Arguments

def empty : Arguments := ⟨[], []⟩

/-- The flag was given. -/
def has (a : Arguments) (long : String) : Bool := a.given.any fun g => g.1 == long

/-- The values of a flag, in order. -/
def values (a : Arguments) (long : String) : List String :=
  a.given.filterMap fun g => if g.1 = long then some g.2 else none

/-- Adds a flag with its value. -/
def give (a : Arguments) (f : Flag) (value : String) : Except Stop Arguments :=
  match f.use with
  | .help => .error .help
  | .version => .error .version
  | .switch =>
    if a.has f.long then .error .misuse else .ok { a with given := a.given ++ [(f.long, value)] }
  | .valued nonEmpty repeatable =>
    if (nonEmpty && value == "") || (!repeatable && a.has f.long) then .error .misuse
    else .ok { a with given := a.given ++ [(f.long, value)] }

/-- The flag needs a value. -/
def needsValue (f : Flag) : Bool :=
  match f.use with
  | .valued _ _ => true
  | _ => false

/-- Reading under way: the arguments so far, the flag whose value comes next, and whether
everything from here on is an operand. -/
structure Reader where
  arguments : Arguments
  awaiting : Option Flag
  literal : Bool

namespace Reader

/-- Adds an operand. -/
def operand (r : Reader) (takesOperands : Bool) (s : String) : Except Stop Reader :=
  if r.awaiting.isNone && takesOperands then
    .ok { r with arguments := { r.arguments with operands := r.arguments.operands ++ [s] } }
  else .error .misuse

/-- Adds a flag with the value attached to it, if any; a flag cannot be the value of another. -/
def flag (r : Reader) (f : Flag) (attached : Option String) : Except Stop Reader :=
  if r.awaiting.isSome then .error .misuse
  else
    match needsValue f, attached with
    | true, none => .ok { r with awaiting := some f }
    | false, some _ => .error .misuse
    | _, value => (r.arguments.give f (value.getD "")).map fun a => { r with arguments := a }

/-- An argument that starts no flag: the awaited value, or an operand. -/
def plain (r : Reader) (takesOperands : Bool) (s : String) : Except Stop Reader :=
  match r.awaiting with
  | some f => (r.arguments.give f s).map fun a => { r with arguments := a, awaiting := none }
  | none => r.operand takesOperands s

end Reader

/-- Reads flag letters standing in one argument.  What follows the letter of a flag with a value is
the value, after an optional `=`. -/
def letters (form : Form) (r : Reader) : List Char → Except Stop Reader
  | [] => .ok r
  | c :: rest =>
    match form.short? c with
    | none => .error .misuse
    | some f =>
      if needsValue f then
        match rest with
        | [] => r.flag f none
        | '=' :: value => r.flag f (some (String.ofList value))
        | value => r.flag f (some (String.ofList value))
      else
        match r.flag f none with
        | .ok next => letters form next rest
        | .error stop => .error stop

/-- The name of a long flag and the value attached to it. -/
def splitLong (s : List Char) : String × Option String :=
  (String.ofList (s.takeWhile (· ≠ '=')),
    match s.dropWhile (· ≠ '=') with
    | [] => none
    | _ :: value => some (String.ofList value))

/-- Reads one argument. -/
def readOne (form : Form) (r : Reader) (s : String) : Except Stop Reader :=
  if r.literal then r.operand form.takesOperands s
  else if 2 ≤ r.arguments.operands.length then r.operand form.takesOperands s
  else
    match s.toList with
    | ['-', '-'] => .ok { r with literal := true }
    | '-' :: '-' :: long =>
      match form.long? (splitLong long).1 with
      | some f => r.flag f (splitLong long).2
      | none => if form.takesOperands then r.operand true s else .error .misuse
    | '-' :: c :: rest =>
      if form.takesOperands && (c :: rest).any fun c => (form.short? c).isNone then r.operand true s
      else letters form r (c :: rest)
    | _ => r.plain form.takesOperands s

/-- Reads arguments one after another. -/
def readFrom (form : Form) (r : Reader) : List String → Except Stop Reader
  | [] => .ok r
  | s :: rest =>
    match readOne form r s with
    | .ok next => readFrom form next rest
    | .error stop => .error stop

/-- Reads the arguments of a command.  No value may be missing, and a command that takes operands
needs two. -/
def read (form : Form) (args : List String) : Except Stop Arguments :=
  match readFrom form ⟨empty, none, false⟩ args with
  | .error stop => .error stop
  | .ok r =>
    if r.awaiting.isSome || (form.takesOperands && r.arguments.operands.length < 2) then
      .error .misuse
    else .ok r.arguments

end Arguments

end AgentOptions
