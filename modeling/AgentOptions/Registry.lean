import AgentOptions.Bindings
import AgentOptions.OptionSpec

/-! # The registry

A registry gives every option a specification of the kind that the option has by default.  It is
built from the specifications that the program comes with (`Registry.builtin`) or from a list of
entries (`Registry.ofEntries`), which has to name every option once and keep the kinds.

`kind_lookup`: a list without a fault gives only specifications of the right kind. -/

namespace AgentOptions

/-- The names of fields that are hidden unless other ones are configured. -/
def hiddenFields : String :=
  "password, passwd, pwd, secret, *key, *token*, *session*, *credit*, *card*, *auth*, set-cookie"

/-- The specification that an option comes with. -/
def builtinSpec : OptionName → OptionSpec
  | .apiKey | .bootstrapPhpPartFile | .environment | .exporterOtlpEndpoint | .hostname | .logFile
  | .secretToken | .serviceName | .serviceNodeName | .serviceVersion => .string
  | .asyncBackendComm | .autoloadEnabled | .breakdownMetrics | .captureErrors | .enabled
  | .spanCompressionEnabled | .transactionSpanEnabled | .transactionSpanEnabledCli
  | .verifyServerCert => .bool true
  | .disableSend => .bool false
  | .devInternal | .disabledInstrumentations | .transactionIgnoreUrls | .urlGroups =>
    .optionalPatterns
  | .sanitizeFieldNames => .patterns (PatternList.ofText hiddenFields)
  | .globalLabels => .labels
  | .logLevel | .logLevelFile | .logLevelStderr | .logLevelSyslog => .logLevel none
  | .nonKeywordStringMaxLength => .natural 10240
  | .stackTraceLimit => .int none none 50
  | .transactionMaxSpans => .natural 500
  | .transactionSampleRate =>
    .float (some .zero) (some (Binary64.ofNat 1)) (Binary64.ofNat 1)
  | .serverTimeout => .seconds (Binary64.ofNat 30)
  | .spanCompressionExactMatchMaxDuration => .millis (Binary64.ofNat 50)
  | .spanCompressionSameKindMaxDuration => .millis .zero
  | .spanStackTraceMinDuration => .signedMillis (Binary64.ofNat 5)

/-- The kind of the values of an option. -/
def OptionName.kind (n : OptionName) : Kind := (builtinSpec n).kind

/-- A specification for every option, of the kind that the option has. -/
structure Registry where
  spec : OptionName → OptionSpec
  kind_spec : ∀ n, (spec n).kind = n.kind

/-- Why a list of entries makes no registry. -/
inductive RegistryError where
  | missing (option : OptionName)
  | repeated (option : OptionName)
  | wrongKind (option : OptionName) (expected found : Kind)
  deriving DecidableEq

def RegistryError.message : RegistryError → String
  | missing option => "option " ++ quoted option.text ++ " has no registered metadata"
  | repeated option => "option " ++ quoted option.text ++ " is registered more than once"
  | wrongKind option expected found =>
    "option " ++ quoted option.text ++ " is registered as " ++ found.text ++ ", expected " ++
      expected.text

namespace Registry

/-- The registry that the program comes with. -/
def builtin : Registry := ⟨builtinSpec, fun _ => rfl⟩

/-- An entry: an option and its specification. -/
abbrev Entry := OptionName × OptionSpec

/-- The first entry of the wrong kind or with a name seen before; of both faults the kind is
reported. -/
def firstFault? (seen : List OptionName) : List Entry → Option RegistryError
  | [] => none
  | (n, spec) :: entries =>
    if spec.kind ≠ n.kind then some (.wrongKind n n.kind spec.kind)
    else if n ∈ seen then some (.repeated n)
    else firstFault? (n :: seen) entries

/-- The first option, in declared order, that no entry names. -/
def firstMissing? (entries : List Entry) : Option OptionName :=
  OptionName.all.find? fun n => !entries.any fun e => e.1 == n

theorem kind_of_firstFault?_eq_none {seen : List OptionName} {entries : List Entry}
    (h : firstFault? seen entries = none) : ∀ e ∈ entries, e.2.kind = e.1.kind := by
  induction entries generalizing seen with
  | nil => simp
  | cons e rest ih =>
    obtain ⟨n, spec⟩ := e
    unfold firstFault? at h
    split at h
    · cases h
    · next hk =>
      split at h
      · cases h
      · intro e he
        rcases List.mem_cons.1 he with rfl | he
        · exact Decidable.not_not.1 hk
        · exact ih h e he

theorem kind_lookup {entries : List Entry} (h : firstFault? [] entries = none) (n : OptionName) :
    ((entries.lookup n).getD (builtinSpec n)).kind = n.kind := by
  cases hl : entries.lookup n with
  | none => rfl
  | some spec => exact kind_of_firstFault?_eq_none h _ (Bindings.mem_of_lookup_eq_some hl)

/-- The registry of a list of entries. -/
def ofEntries (entries : List Entry) : Except RegistryError Registry :=
  match h : firstFault? [] entries with
  | some fault => .error fault
  | none =>
    match firstMissing? entries with
    | some n => .error (.missing n)
    | none => .ok ⟨fun n => (entries.lookup n).getD (builtinSpec n), kind_lookup h⟩

/-- The entries of a registry, in declared order. -/
def entries (registry : Registry) : List Entry := OptionName.all.map fun n => (n, registry.spec n)

end Registry

end AgentOptions
