import AgentOptions.OptionValue

/-! # Option specifications

How the raw text of an option is read, which values are in bounds, and which value stands if there
is none.  Bounds are inclusive, and a value beyond them is refused, never moved; those of durations
are in milliseconds, whatever unit a bare number counts.

`OptionSpec.read` expects a trimmed text that is not empty. -/

namespace AgentOptions

inductive OptionSpec where
  | bool (default : Bool)
  | int (min max : Option Int64) (default : Int64)
  | float (min max : Option Binary64) (default : Binary64)
  | duration (min max : Option Binary64) (unit : TimeUnit) (default : Binary64)
  | string
  | patterns (default : PatternList)
  | optionalPatterns
  | logLevel (default : Option LogLevel)
  | labels

namespace OptionSpec

/-! ### Frequent specifications -/

/-- An integer that is not negative. -/
def natural (default : Int64) : OptionSpec := .int (some 0) none default

/-- A duration that is not negative; bare numbers are milliseconds. -/
def millis (default : Binary64) : OptionSpec :=
  .duration (some .zero) none .milliseconds default

/-- A duration of either sign; bare numbers are milliseconds. -/
def signedMillis (default : Binary64) : OptionSpec := .duration none none .milliseconds default

/-- A duration that is not negative; bare numbers, and the default given here, are seconds. -/
def seconds (default : Binary64) : OptionSpec :=
  .duration (some .zero) none .seconds (TimeUnit.seconds.toMillis default)

/-! ### Kinds and defaults -/

/-- The kind of the values that are read. -/
def kind : OptionSpec → Kind
  | bool _ => .bool
  | int _ _ _ => .int
  | float _ _ _ => .float
  | duration _ _ _ _ => .duration
  | string => .string
  | patterns _ | optionalPatterns => .patterns
  | logLevel _ => .logLevel
  | labels => .labels

def isNumeric (spec : OptionSpec) : Bool :=
  spec.kind == .int || spec.kind == .float || spec.kind == .duration

/-- The value that stands if none is supplied. -/
def default : OptionSpec → OptionValue
  | bool b => .bool b
  | int _ _ n => .int n
  | float _ _ x => .float x
  | duration _ _ _ x => .duration ⟨x⟩
  | patterns l => .patterns l
  | logLevel (some l) => .logLevel l
  | string | optionalPatterns | logLevel none | labels => .null

/-! ### Reading -/

/-- The words for the two truth values. -/
def trueWords : List String := ["true", "yes", "on", "1"]

def falseWords : List String := ["false", "no", "off", "0"]

/-- Reads a truth word in any letter case. -/
def readBool (raw : String) : Except ReadError Bool :=
  if trueWords.any (Text.sameKeyword · raw) then .ok true
  else if falseWords.any (Text.sameKeyword · raw) then .ok false
  else .error (.notBoolean raw)

def readInt (raw : String) : Except ReadError Int64 :=
  match Integer.ofText? raw with
  | some n => .ok n
  | none => .error (.notInteger raw)

/-- Reads a number; one that is out of the range of doubles is refused. -/
def readFloat (raw : String) : Except ReadError Binary64 :=
  match Decimal.ofText? raw with
  | some d => if d.nearest.isFinite then .ok d.nearest else .error (.notFinite raw)
  | none => .error (.notFinite raw)

def readLogLevel (raw : String) : Except ReadError LogLevel :=
  match LogLevel.ofText? raw with
  | some l => .ok l
  | none => .error (.notLogLevel raw)

/-- The bound that a value passes; the lower one if it passes both. -/
def passed? {α : Type} (less : α → α → Bool) (text : α → String) (min max : Option α) (x : α) :
    Option Limit :=
  match min.filter (less x ·) with
  | some m => some (.min (text m))
  | none => (max.filter (less · x)).map fun m => .max (text m)

/-- A value within its bounds. -/
def within {α : Type} (limit : α → Option Limit) (raw : String) (x : α) : Except ReadError α :=
  match limit x with
  | some l => .error (.outOfRange raw l)
  | none => .ok x

def intLimit (min max : Option Int64) : Int64 → Option Limit :=
  passed? (fun m n => decide (m < n)) (fun n => Integer.text n.toInt) min max

def floatLimit (min max : Option Binary64) : Binary64 → Option Limit :=
  passed? Binary64.less Decimal.plain.text min max

/-- Reads a raw text. -/
def read (spec : OptionSpec) (raw : String) : Except ReadError OptionValue :=
  match spec with
  | bool _ => (readBool raw).map .bool
  | int min max _ => (readInt raw >>= within (intLimit min max) raw).map .int
  | float min max _ => (readFloat raw >>= within (floatLimit min max) raw).map .float
  | duration min max unit _ =>
    (Duration.ofText unit raw >>= within (fun d => floatLimit min max d.millis) raw).map .duration
  | string => .ok (.string raw)
  | patterns _ | optionalPatterns => .ok (.patterns (PatternList.ofText raw))
  | logLevel _ => (readLogLevel raw).map .logLevel
  | labels => .ok (.labels (Labels.ofText raw))

/-- The warnings that reading a raw text causes. -/
def warnings (spec : OptionSpec) (raw : String) : List Event :=
  match spec with
  | labels => Labels.warnings raw
  | _ => []

end OptionSpec

end AgentOptions
