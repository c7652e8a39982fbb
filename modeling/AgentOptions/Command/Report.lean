import AgentOptions.Event

/-! # Reports of commands

What a command leaves behind: its output, an exit status, the events on the way, and an error. -/

namespace AgentOptions

structure Report where
  exit : Nat
  output : String
  events : List Event
  /-- The text of the error, if the command failed. -/
  error : Option String

namespace Report

/-- The output of a command that succeeds. -/
def success (output : String) (events : List Event) : Report := ⟨0, output, events, none⟩

/-- Arguments that make no command. -/
def misuse : Report := ⟨2, "", [], none⟩

/-- A text whose further lines are indented. -/
def indentLines (indent : List Char) (s : String) : List Char :=
  s.toList.flatMap fun c => if c = '\n' then '\n' :: indent else [c]

/-- A single cause, four blanks in. -/
def soleCause (s : String) : List Char :=
  List.replicate 4 ' ' ++ indentLines (List.replicate 4 ' ') s

/-- A cause with its number, right-aligned in five places. -/
def numberedCause (number : Nat) (s : String) : List Char :=
  let digits := Nat.toDigits 10 number
  List.replicate (5 - digits.length) ' ' ++ digits ++ [':', ' '] ++
    indentLines (List.replicate 7 ' ') s

/-- The causes of an error, one a line; several are numbered from zero. -/
def causes : List String → List (List Char)
  | [] => []
  | [cause] => [soleCause cause]
  | several => several.mapIdx numberedCause

/-- The text of an error: its message and its causes. -/
def errorText : List String → String
  | [] => ""
  | [message] => "Error: " ++ message ++ "\n"
  | message :: more =>
    "Error: " ++ message ++ "\n\nCaused by:\n" ++
      String.ofList ((causes more).flatMap fun line => line ++ ['\n'])

/-- The report of a command that fails, by the message and the causes of its error. -/
def failure (messages : List String) (events : List Event) : Report :=
  ⟨1, "", events, some (errorText messages)⟩

end Report

/-! ### Tables -/

namespace Table

/-- The width of the widest text. -/
def width (texts : List String) : Nat := (texts.map String.length).foldl max 0

/-- A text filled up with blanks on the right. -/
def padded (width : Nat) (s : String) : String :=
  String.ofList (s.toList ++ List.replicate (width - s.length) ' ')

/-- Lines, each ended. -/
def lines (ls : List String) : String := String.join (ls.map fun l => l ++ "\n")

/-- What stands for a missing value. -/
def unset : String := "-"

end Table

end AgentOptions
