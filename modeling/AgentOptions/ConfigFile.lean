import AgentOptions.Text.Case
import AgentOptions.Text.Pieces

/-! # Configuration files

A configuration file is a list of lines.  Blanks around a line do not count; empty lines, comments
(`;` or `#`) and section headers (`[…]`) say nothing; every other line has to be an assignment
`key = value`.  Keys are words of letters, digits, `_`, `.` and `-`, read in any letter case.  One
pair of equal quotes around a value is taken off.  The last of several values for a key stands. -/

namespace AgentOptions.ConfigFile

/-- A character of a key. -/
def isKeyChar (c : Char) : Bool := c.isAlphanum || c == '_' || c == '.' || c == '-'

/-- Takes one pair of equal quotes off the two ends of a value. -/
def unquote (value : List Char) : List Char :=
  match value with
  | [] | [_] => value
  | first :: rest =>
    if (first = '"' ∨ first = '\'') ∧ rest.getLast? = some first then rest.dropLast else value

/-- The key and the value of an assignment. -/
def assignment? (line : List Char) : Option (String × String) :=
  let key := line.takeWhile isKeyChar
  if key = [] then none
  else
    match Text.trimLeft (line.dropWhile isKeyChar) with
    | '=' :: value =>
      some (String.ofList (key.map Char.toLower),
        String.ofList (unquote (Text.trimChars value)))
    | _ => none

/-- A line that says nothing: empty, a comment or a section header. -/
def isIdle (line : List Char) : Bool :=
  match line with
  | [] => true
  | first :: _ => first == ';' || first == '#' || (first == '[' && line.getLast? == some ']')

/-- A line that is neither idle nor an assignment: its number, from 1, and its trimmed text. -/
structure Malformed where
  line : Nat
  text : String
  deriving DecidableEq

/-- The assignments of trimmed lines, the first of which has the given number. -/
def readLines (number : Nat) : List (List Char) → Except Malformed (List (String × String))
  | [] => .ok []
  | line :: rest =>
    if isIdle line then readLines (number + 1) rest
    else
      match assignment? line with
      | some a => (readLines (number + 1) rest).map (a :: ·)
      | none => .error ⟨number, String.ofList line⟩

/-- The trimmed lines of a text.  A carriage return before the end of a line is a blank there. -/
def trimmedLines (content : String) : List (List Char) :=
  (content.toList.splitOn '\n').map Text.trimChars

/-- The assignments of a file, in the order of its lines. -/
def read (content : String) : Except Malformed (List (String × String)) :=
  readLines 1 (trimmedLines content)

/-- The value that stands for a key. -/
def value? (assignments : List (String × String)) (key : String) : Option String :=
  assignments.reverse.lookup key

/-- The keys that are assigned, each once, by code points. -/
def keys (assignments : List (String × String)) : List String :=
  (assignments.map Prod.fst).eraseDups.mergeSort fun k l => decide (k ≤ l)

end AgentOptions.ConfigFile
