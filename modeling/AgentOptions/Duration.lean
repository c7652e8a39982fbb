import AgentOptions.Decimal.Layout
import AgentOptions.Event
import AgentOptions.Text.Blank

/-! # Durations

A duration is a number of milliseconds, possibly with a fraction.  It is written as a numeral and,
after optional blanks, an optional unit suffix; without one the numeral counts the unit that the
reader is told (`Duration.ofText`). -/

namespace AgentOptions

/-- The units of durations. -/
inductive TimeUnit where
  | milliseconds
  | seconds
  | minutes
  deriving DecidableEq

namespace TimeUnit

def all : List TimeUnit := [milliseconds, seconds, minutes]

/-- The suffix of numerals that count the unit. -/
def suffix : TimeUnit → String
  | milliseconds => "ms"
  | seconds => "s"
  | minutes => "m"

def name : TimeUnit → String
  | milliseconds => "milliseconds"
  | seconds => "seconds"
  | minutes => "minutes"

/-- Reads a suffix in any letter case. -/
def ofSuffix? (s : String) : Option TimeUnit := all.find? fun u => Text.sameKeyword u.suffix s

/-- An amount of the unit, in milliseconds. -/
def toMillis : TimeUnit → Binary64 → Binary64
  | milliseconds, amount => amount
  | seconds, amount => amount.scale 1000
  | minutes, amount => amount.scale 60000

end TimeUnit

/-- A number of milliseconds. -/
structure Duration where
  millis : Binary64
  deriving DecidableEq

namespace Duration

def zero : Duration := ⟨.zero⟩

def inSeconds (d : Duration) : Binary64 := d.millis.divide 1000

def text (d : Duration) : String := Decimal.plain.text d.millis ++ TimeUnit.milliseconds.suffix

/-- The time from `start` to `finish`; a clock that was set back makes it zero and is reported. -/
def between (start finish : Binary64) : Duration × List Event :=
  let elapsed := finish.subtract start
  if elapsed.less .zero then (zero, [.negativeDuration start finish]) else (⟨elapsed⟩, [])

/-- A letter of a unit suffix. -/
def isSuffixLetter (c : Char) : Bool := c.isAlpha

/-- The numeral and the suffix of a text that consists of a numeral, blanks and letters. -/
def split? (s : List Char) : Option (Decimal × String) :=
  match Decimal.scan s with
  | some (d, rest) =>
    let suffix := Text.trimLeft rest
    if suffix.all isSuffixLetter then some (d, String.ofList suffix) else none
  | none => none

/-- The unit that a suffix names; the empty one stands for `bare`. -/
def unitOf? (bare : TimeUnit) (suffix : String) : Option TimeUnit :=
  if suffix = "" then some bare else TimeUnit.ofSuffix? suffix

/-- Reads a duration.  The numeral and the scaled amount have to be finite. -/
def ofText (bare : TimeUnit) (raw : String) : Except ReadError Duration :=
  match split? raw.toList with
  | none => .error (.notDuration raw)
  | some (numeral, suffix) =>
    if numeral.nearest.isFinite then
      match unitOf? bare suffix with
      | none => .error (.unknownUnit raw suffix)
      | some unit =>
        let millis := unit.toMillis numeral.nearest
        if millis.isFinite then .ok ⟨millis⟩ else .error (.notDuration raw)
    else .error (.notDuration raw)

end Duration

end AgentOptions
