/-! # Unreadable values

Why a raw text is no value of its option.  Every cause carries the text; `ReadError.message` is
its wording. -/

namespace AgentOptions

/-- The bound that a value passes, as written in messages. -/
inductive Limit where
  | min (bound : String)
  | max (bound : String)
  deriving DecidableEq

inductive ReadError where
  | notBoolean (raw : String)
  | notInteger (raw : String)
  | notFinite (raw : String)
  | notDuration (raw : String)
  | unknownUnit (raw unit : String)
  | outOfRange (raw : String) (limit : Limit)
  | notLogLevel (raw : String)
  deriving DecidableEq

def Limit.text : Limit → String
  | min bound => "min " ++ bound
  | max bound => "max " ++ bound

/-- A text between the quotes used in messages. -/
def quoted (s : String) : String := "`" ++ s ++ "`"

namespace ReadError

def message : ReadError → String
  | notBoolean raw =>
    quoted raw ++ " is not a boolean (expected true/false, yes/no, on/off or 1/0)"
  | notInteger raw => quoted raw ++ " is not an integer"
  | notFinite raw => quoted raw ++ " is not a finite number"
  | notDuration raw => quoted raw ++ " is not a duration"
  | unknownUnit raw unit =>
    quoted raw ++ " uses unknown duration unit " ++ quoted unit ++ " (expected ms, s or m)"
  | outOfRange raw limit => quoted raw ++ " is out of range (" ++ limit.text ++ ")"
  | notLogLevel raw =>
    quoted raw ++
      " is not a log level (expected off, critical, error, warning, info, debug or trace)"

end ReadError

end AgentOptions
