import AgentOptions.Text.Case

/-! # Option names

The closed list of options, and what an option is called outside: a variable of the environment
(`variableName`) and a key of a configuration file (`fileKey`), both made of the name and the name
space that the option belongs to (`Vendor`).

`ofText?_eq_some_iff`: the names are exactly the texts that read as options. -/

namespace AgentOptions

/-- The name spaces of options. -/
inductive Vendor where
  | otel
  | otelPhp
  | elasticOtel
  deriving DecidableEq

namespace Vendor

def all : List Vendor := [otel, otelPhp, elasticOtel]

/-- How the variables of the name space start. -/
def variableStart : Vendor → String
  | otel => "OTEL_"
  | otelPhp => "OTEL_PHP_"
  | elasticOtel => "ELASTIC_OTEL_"

/-- The section of the name space in file keys. -/
def sectionName : Vendor → String
  | otel => "otel"
  | otelPhp => "otel_php"
  | elasticOtel => "elastic_otel"

end Vendor

/-- The options. -/
inductive OptionName where
  | apiKey
  | asyncBackendComm
  | autoloadEnabled
  | bootstrapPhpPartFile
  | breakdownMetrics
  | captureErrors
  | devInternal
  | disableSend
  | disabledInstrumentations
  | enabled
  | environment
  | exporterOtlpEndpoint
  | globalLabels
  | hostname
  | logFile
  | logLevel
  | logLevelFile
  | logLevelStderr
  | logLevelSyslog
  | nonKeywordStringMaxLength
  | sanitizeFieldNames
  | secretToken
  | serverTimeout
  | serviceName
  | serviceNodeName
  | serviceVersion
  | spanCompressionEnabled
  | spanCompressionExactMatchMaxDuration
  | spanCompressionSameKindMaxDuration
  | spanStackTraceMinDuration
  | stackTraceLimit
  | transactionIgnoreUrls
  | transactionMaxSpans
  | transactionSampleRate
  | transactionSpanEnabled
  | transactionSpanEnabledCli
  | urlGroups
  | verifyServerCert
  deriving DecidableEq

namespace OptionName

/-- All options, in the order in which they are listed everywhere. -/
def all : List OptionName :=
  [apiKey, asyncBackendComm, autoloadEnabled, bootstrapPhpPartFile, breakdownMetrics,
   captureErrors, devInternal, disableSend, disabledInstrumentations, enabled, environment,
   exporterOtlpEndpoint, globalLabels, hostname, logFile, logLevel, logLevelFile, logLevelStderr,
   logLevelSyslog, nonKeywordStringMaxLength, sanitizeFieldNames, secretToken, serverTimeout,
   serviceName, serviceNodeName, serviceVersion, spanCompressionEnabled,
   spanCompressionExactMatchMaxDuration, spanCompressionSameKindMaxDuration,
   spanStackTraceMinDuration, stackTraceLimit, transactionIgnoreUrls, transactionMaxSpans,
   transactionSampleRate, transactionSpanEnabled, transactionSpanEnabledCli, urlGroups,
   verifyServerCert]

/-- The name as it is written. -/
def text : OptionName → String
  | apiKey => "api_key"
  | asyncBackendComm => "async_backend_comm"
  | autoloadEnabled => "autoload_enabled"
  | bootstrapPhpPartFile => "bootstrap_php_part_file"
  | breakdownMetrics => "breakdown_metrics"
  | captureErrors => "capture_errors"
  | devInternal => "dev_internal"
  | disableSend => "disable_send"
  | disabledInstrumentations => "disabled_instrumentations"
  | enabled => "enabled"
  | environment => "environment"
  | exporterOtlpEndpoint => "exporter_otlp_endpoint"
  | globalLabels => "global_labels"
  | hostname => "hostname"
  | logFile => "log_file"
  | logLevel => "log_level"
  | logLevelFile => "log_level_file"
  | logLevelStderr => "log_level_stderr"
  | logLevelSyslog => "log_level_syslog"
  | nonKeywordStringMaxLength => "non_keyword_string_max_length"
  | sanitizeFieldNames => "sanitize_field_names"
  | secretToken => "secret_token"
  | serverTimeout => "server_timeout"
  | serviceName => "service_name"
  | serviceNodeName => "service_node_name"
  | serviceVersion => "service_version"
  | spanCompressionEnabled => "span_compression_enabled"
  | spanCompressionExactMatchMaxDuration => "span_compression_exact_match_max_duration"
  | spanCompressionSameKindMaxDuration => "span_compression_same_kind_max_duration"
  | spanStackTraceMinDuration => "span_stack_trace_min_duration"
  | stackTraceLimit => "stack_trace_limit"
  | transactionIgnoreUrls => "transaction_ignore_urls"
  | transactionMaxSpans => "transaction_max_spans"
  | transactionSampleRate => "transaction_sample_rate"
  | transactionSpanEnabled => "transaction_span_enabled"
  | transactionSpanEnabledCli => "transaction_span_enabled_cli"
  | urlGroups => "url_groups"
  | verifyServerCert => "verify_server_cert"

theorem mem_all (n : OptionName) : n ∈ all := by
  cases n <;> decide

theorem nodup_all : all.Nodup := by decide

/-- Reads a name; it has to be written exactly. -/
def ofText? (s : String) : Option OptionName := all.find? fun n => n.text == s

theorem ofText?_text (n : OptionName) : ofText? n.text = some n := by
  cases n <;> decide

/-- Names are read back, and nothing else is. -/
theorem ofText?_eq_some_iff {s : String} {n : OptionName} : ofText? s = some n ↔ s = n.text := by
  constructor
  · intro h
    have := List.find?_some h
    exact (eq_of_beq this).symm
  · rintro rfl
    exact ofText?_text n

/-- No two options have one name. -/
theorem text_inj {n m : OptionName} (h : n.text = m.text) : n = m :=
  Option.some.inj (by rw [← ofText?_text, h, ofText?_text])

/-- The name space of an option. -/
def vendor : OptionName → Vendor
  | exporterOtlpEndpoint => .otel
  | autoloadEnabled | disabledInstrumentations => .otelPhp
  | _ => .elasticOtel

/-- The environment variable of an option. -/
def variableName (n : OptionName) : String := n.vendor.variableStart ++ Text.capitalLetters n.text

/-- The key of an option in a configuration file. -/
def fileKey (n : OptionName) : String := n.vendor.sectionName ++ "." ++ n.text

/-- The options that set a log level. -/
def setsLogLevel : OptionName → Bool
  | logLevel | logLevelFile | logLevelStderr | logLevelSyslog => true
  | _ => false

end OptionName

/-- The message about a text that is no option name. -/
def unknownOptionMessage (name : String) : String := "unknown option `" ++ name ++ "`"

end AgentOptions
