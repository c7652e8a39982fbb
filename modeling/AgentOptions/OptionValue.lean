import AgentOptions.Duration
import AgentOptions.Json
import AgentOptions.Labels
import AgentOptions.LogLevel
import AgentOptions.Pattern.PatternList

/-! # Option values

What an option can hold.  A value has a text for people (`OptionValue.text`), a raw text that
reads back as the value (`OptionValue.raw?`, none for the null value), and a document
(`OptionValue.json`) in which the kind of the value leaves no trace. -/

namespace AgentOptions

/-- The kinds of values other than the null value. -/
inductive Kind where
  | bool
  | int
  | float
  | duration
  | string
  | patterns
  | logLevel
  | labels
  deriving DecidableEq

def Kind.text : Kind → String
  | bool => "bool"
  | int => "int"
  | float => "float"
  | duration => "duration"
  | string => "string"
  | patterns => "wildcard-list"
  | logLevel => "log-level"
  | labels => "labels"

inductive OptionValue where
  | null
  | bool (b : Bool)
  | int (n : Int64)
  | float (x : Binary64)
  | duration (d : Duration)
  | string (s : String)
  | patterns (l : PatternList)
  | logLevel (l : LogLevel)
  | labels (l : Labels)
  deriving DecidableEq

namespace OptionValue

/-- The kind of a value; the null value has none. -/
def kind? : OptionValue → Option Kind
  | null => none
  | bool _ => some .bool
  | int _ => some .int
  | float _ => some .float
  | duration _ => some .duration
  | string _ => some .string
  | patterns _ => some .patterns
  | logLevel _ => some .logLevel
  | labels _ => some .labels

/-! ### Contents -/

def isNull (v : OptionValue) : Bool := v.kind? == none

def bool? : OptionValue → Option Bool
  | bool b => some b
  | _ => none

def int? : OptionValue → Option Int64
  | int n => some n
  | _ => none

def float? : OptionValue → Option Binary64
  | float x => some x
  | _ => none

def duration? : OptionValue → Option Duration
  | duration d => some d
  | _ => none

def string? : OptionValue → Option String
  | string s => some s
  | _ => none

def patterns? : OptionValue → Option PatternList
  | patterns l => some l
  | _ => none

def logLevel? : OptionValue → Option LogLevel
  | logLevel l => some l
  | _ => none

def labels? : OptionValue → Option Labels
  | labels l => some l
  | _ => none

/-- Equality of values, in which numbers are compared as numbers: the zeros are equal, and what is
not a number differs from itself. -/
def same : OptionValue → OptionValue → Bool
  | float x, float y => x.same y
  | duration d, duration e => d.millis.same e.millis
  | v, w => v == w

/-! ### Written forms -/

def boolText (b : Bool) : String := if b then "true" else "false"

/-- The text of a value in tables. -/
def text : OptionValue → String
  | null => "null"
  | bool b => boolText b
  | int n => Integer.text n.toInt
  | float x => Decimal.plain.text x
  | duration d => d.text
  | string s => s
  | patterns l => l.text
  | logLevel l => l.text
  | labels l => l.text

/-- The raw text of a value.  A duration has its unit with it, so that it reads back whatever unit
bare numbers count. -/
def raw? (v : OptionValue) : Option String := if v.isNull then none else some v.text

/-- The document of a value. -/
def json : OptionValue → Json
  | null => .null
  | bool b => .bool b
  | int n => .integer n.toInt
  | float x => .number x
  | duration d => .number d.millis
  | string s => .string s
  | patterns l => .array (l.patterns.map fun p => .string p.text)
  | logLevel l => .string l.text
  | labels l => .object (l.pairs.map fun p => (p.1, .string p.2))

end OptionValue

end AgentOptions
