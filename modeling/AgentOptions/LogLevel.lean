import AgentOptions.Text.Case

/-! # Log levels

The seven levels, from the least to the most verbose.  Their names are read in any letter case. -/

namespace AgentOptions

inductive LogLevel where
  | off
  | critical
  | error
  | warning
  | info
  | debug
  | trace
  deriving DecidableEq

namespace LogLevel

/-- All levels, the least verbose first. -/
def all : List LogLevel := [off, critical, error, warning, info, debug, trace]

def text : LogLevel → String
  | off => "off"
  | critical => "critical"
  | error => "error"
  | warning => "warning"
  | info => "info"
  | debug => "debug"
  | trace => "trace"

/-- The place of a level in `all`. -/
def verbosity (l : LogLevel) : Nat := all.idxOf l

/-- Reads the name of a level. -/
def ofText? (s : String) : Option LogLevel := all.find? fun l => Text.sameKeyword l.text s

end LogLevel

end AgentOptions
