import AgentOptions.Registry

/-! # Snapshots

A snapshot gives every option its setting: the value in force, and whether it is the default, was
supplied by a source, or stands in for a text that was refused.  A snapshot never changes.

The accessors give the content of an option's value; where the value has another kind they give a
neutral content, which by the kinds of registries never happens. -/

namespace AgentOptions

/-- A text that was refused: who supplied it, and why it is no value. -/
structure Rejection where
  source : String
  raw : String
  error : ReadError
  deriving DecidableEq

/-- Where the value of an option comes from. -/
inductive Setting where
  /-- No source supplies the option. -/
  | defaulted (value : OptionValue)
  /-- A source supplies the value. -/
  | supplied (value : OptionValue) (origin : String)
  /-- A source supplies a text that is no value; the default stands. -/
  | rejected (value : OptionValue) (rejection : Rejection)
  deriving DecidableEq

namespace Setting

/-- The value in force. -/
def value : Setting → OptionValue
  | defaulted v => v
  | supplied v _ => v
  | rejected v _ => v

/-- The source that supplied the value. -/
def origin? : Setting → Option String
  | supplied _ origin => some origin
  | _ => none

/-- The refused text, if there is one. -/
def rejection? : Setting → Option Rejection
  | rejected _ rejection => some rejection
  | _ => none

/-- Equality of settings, with numbers compared as numbers. -/
def same (s t : Setting) : Bool :=
  s.value.same t.value && s.origin? == t.origin? && s.rejection? == t.rejection?

end Setting

/-- The setting of every option. -/
structure Snapshot where
  setting : OptionName → Setting

namespace Snapshot

/-- All options at their defaults. -/
def defaults (registry : Registry) : Snapshot := ⟨fun n => .defaulted (registry.spec n).default⟩

def value (s : Snapshot) (n : OptionName) : OptionValue := (s.setting n).value

/-- The source that supplied an option, if it is neither defaulted nor refused. -/
def origin? (s : Snapshot) (n : OptionName) : Option String := (s.setting n).origin?

/-- The refused text of an option. -/
def rejection? (s : Snapshot) (n : OptionName) : Option Rejection := (s.setting n).rejection?

/-- The options and their values, in declared order. -/
def values (s : Snapshot) : List (OptionName × OptionValue) :=
  OptionName.all.map fun n => (n, s.value n)

/-- The options that a source supplied, with its name, in declared order. -/
def origins (s : Snapshot) : List (OptionName × String) :=
  OptionName.all.filterMap fun n => (s.origin? n).map (n, ·)

/-- The options with a refused text, in declared order. -/
def rejections (s : Snapshot) : List (OptionName × Rejection) :=
  OptionName.all.filterMap fun n => (s.rejection? n).map (n, ·)

/-- Equality of all settings. -/
def same (s t : Snapshot) : Bool := OptionName.all.all fun n => (s.setting n).same (t.setting n)

/-- An object with one member for each option. -/
def json (s : Snapshot) : Json := .object (s.values.map fun p => (p.1.text, p.2.json))

/-! ### Accessors -/

def bool (s : Snapshot) (n : OptionName) : Bool := (s.value n).bool?.getD false

def int (s : Snapshot) (n : OptionName) : Int64 := (s.value n).int?.getD 0

def float (s : Snapshot) (n : OptionName) : Binary64 := (s.value n).float?.getD (Binary64.ofNat 1)

def duration (s : Snapshot) (n : OptionName) : Duration := (s.value n).duration?.getD .zero

def string? (s : Snapshot) (n : OptionName) : Option String := (s.value n).string?

def patterns? (s : Snapshot) (n : OptionName) : Option PatternList := (s.value n).patterns?

def logLevel? (s : Snapshot) (n : OptionName) : Option LogLevel := (s.value n).logLevel?

def labels? (s : Snapshot) (n : OptionName) : Option Labels := (s.value n).labels?

/-- What the accessor of an option gives. -/
inductive Content where
  | bool (b : Bool)
  | int (n : Int64)
  | float (x : Binary64)
  | duration (d : Duration)
  | string (s : Option String)
  | patterns (l : Option PatternList)
  | logLevel (l : Option LogLevel)
  | labels (l : Option Labels)
  deriving DecidableEq

/-- The content of every option, by its accessor. -/
def content (s : Snapshot) : OptionName → Content
  | .apiKey => .string (s.string? .apiKey)
  | .asyncBackendComm => .bool (s.bool .asyncBackendComm)
  | .autoloadEnabled => .bool (s.bool .autoloadEnabled)
  | .bootstrapPhpPartFile => .string (s.string? .bootstrapPhpPartFile)
  | .breakdownMetrics => .bool (s.bool .breakdownMetrics)
  | .captureErrors => .bool (s.bool .captureErrors)
  | .devInternal => .patterns (s.patterns? .devInternal)
  | .disableSend => .bool (s.bool .disableSend)
  | .disabledInstrumentations => .patterns (s.patterns? .disabledInstrumentations)
  | .enabled => .bool (s.bool .enabled)
  | .environment => .string (s.string? .environment)
  | .exporterOtlpEndpoint => .string (s.string? .exporterOtlpEndpoint)
  | .globalLabels => .labels (s.labels? .globalLabels)
  | .hostname => .string (s.string? .hostname)
  | .logFile => .string (s.string? .logFile)
  | .logLevel => .logLevel (s.logLevel? .logLevel)
  | .logLevelFile => .logLevel (s.logLevel? .logLevelFile)
  | .logLevelStderr => .logLevel (s.logLevel? .logLevelStderr)
  | .logLevelSyslog => .logLevel (s.logLevel? .logLevelSyslog)
  | .nonKeywordStringMaxLength => .int (s.int .nonKeywordStringMaxLength)
  | .sanitizeFieldNames => .patterns (s.patterns? .sanitizeFieldNames)
  | .secretToken => .string (s.string? .secretToken)
  | .serverTimeout => .duration (s.duration .serverTimeout)
  | .serviceName => .string (s.string? .serviceName)
  | .serviceNodeName => .string (s.string? .serviceNodeName)
  | .serviceVersion => .string (s.string? .serviceVersion)
  | .spanCompressionEnabled => .bool (s.bool .spanCompressionEnabled)
  | .spanCompressionExactMatchMaxDuration =>
    .duration (s.duration .spanCompressionExactMatchMaxDuration)
  | .spanCompressionSameKindMaxDuration =>
    .duration (s.duration .spanCompressionSameKindMaxDuration)
  | .spanStackTraceMinDuration => .duration (s.duration .spanStackTraceMinDuration)
  | .stackTraceLimit => .int (s.int .stackTraceLimit)
  | .transactionIgnoreUrls => .patterns (s.patterns? .transactionIgnoreUrls)
  | .transactionMaxSpans => .int (s.int .transactionMaxSpans)
  | .transactionSampleRate => .float (s.float .transactionSampleRate)
  | .transactionSpanEnabled => .bool (s.bool .transactionSpanEnabled)
  | .transactionSpanEnabledCli => .bool (s.bool .transactionSpanEnabledCli)
  | .urlGroups => .patterns (s.patterns? .urlGroups)
  | .verifyServerCert => .bool (s.bool .verifyServerCert)

end Snapshot

end AgentOptions
