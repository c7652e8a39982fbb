import AgentOptions.Binary64
import AgentOptions.Integer
import AgentOptions.OptionName
import AgentOptions.ReadError

/-! # Diagnostic events

What the program reports while it works, in order of occurrence.  Functions that have something to
report return their events beside their result; `Event.urgency`, `Event.message`, `Event.fields`
and `Event.target` say how an event appears in a log. -/

namespace AgentOptions

/-- How urgent an event is. -/
inductive Urgency where
  | warn
  | debug
  deriving DecidableEq

/-- The content of a field of an event. -/
inductive FieldValue where
  | text (s : String)
  | number (x : Binary64)
  deriving DecidableEq

inductive Event where
  /-- A piece of a label list that binds nothing. -/
  | malformedLabel (entry : String)
  /-- A supplied text that is no value of its option. -/
  | invalidValue (option : OptionName) (source raw : String) (error : ReadError)
  /-- An environment variable whose bytes are no text. -/
  | undecodableVariable (variableName : String)
  | resolving (sources : Nat)
  | sourceLoaded (source : String) (values : Nat)
  | notSupplied (option : OptionName)
  | resolved (option : OptionName) (source raw : String)
  | resolutionDone (supplied rejected : Nat)
  /-- A key of a configuration file that belongs to no requested option. -/
  | unknownKey (key file : String)
  | negativeDuration (start finish : Binary64)
  | published (epoch : Nat)
  | compiledPatterns (count : Nat) (patterns : String)
  deriving DecidableEq

namespace Event

def urgency : Event → Urgency
  | malformedLabel _ | invalidValue _ _ _ _ | undecodableVariable _ => .warn
  | _ => .debug

def message : Event → String
  | malformedLabel _ => "dropping malformed label (expected `key=value`)"
  | invalidValue _ _ _ _ => "invalid option value, falling back to default"
  | undecodableVariable _ => "ignoring environment variable that is not valid UTF-8"
  | resolving _ => "resolving options"
  | sourceLoaded _ _ => "loaded config source"
  | notSupplied _ => "no source supplies a value, using default"
  | resolved _ _ _ => "resolved option"
  | resolutionDone _ _ => "resolved options"
  | unknownKey _ _ => "ignoring unknown ini key"
  | negativeDuration _ _ => "negative duration clamped to zero"
  | published _ => "published config snapshot"
  | compiledPatterns _ _ => "compiled wildcard list"

def fields : Event → List (String × FieldValue)
  | malformedLabel entry => [("entry", .text entry)]
  | invalidValue option source raw error =>
    [("option", .text option.text), ("source", .text source), ("raw", .text raw),
      ("error", .text error.message)]
  | undecodableVariable name => [("var", .text name)]
  | resolving sources => [("sources", .text (Integer.text sources))]
  | sourceLoaded source values =>
    [("source", .text source), ("values", .text (Integer.text values))]
  | notSupplied option => [("option", .text option.text)]
  | resolved option source raw =>
    [("option", .text option.text), ("source", .text source), ("raw", .text raw)]
  | resolutionDone supplied rejected =>
    [("supplied", .text (Integer.text supplied)), ("rejected", .text (Integer.text rejected))]
  | unknownKey key file => [("key", .text key), ("file", .text file)]
  | negativeDuration start finish => [("start", .number start), ("end", .number finish)]
  | published epoch => [("epoch", .text (Integer.text epoch))]
  | compiledPatterns count patterns =>
    [("patterns", .text (Integer.text count)), ("list", .text patterns)]

/-- The part of the program that the log names as the origin of the event. -/
def target : Event → String
  | malformedLabel _ => "otel_options::options::parse"
  | undecodableVariable _ => "otel_options::sources::env"
  | unknownKey _ _ => "otel_options::sources::ini"
  | negativeDuration _ _ => "otel_options::options::value"
  | published _ => "otel_options::config::cell"
  | compiledPatterns _ _ => "otel_options::cli::wildcard"
  | _ => "otel_options::config::resolver"

/-- The event tells how an option was read or settled. -/
def IsSettling : Event → Prop
  | malformedLabel _ | invalidValue _ _ _ _ | notSupplied _ | resolved _ _ _
  | resolutionDone _ _ => True
  | _ => False

end Event

end AgentOptions
