import AgentOptions.Snapshot
import AgentOptions.Source

/-! # Resolution

Sources are listed from the highest precedence to the lowest.  All of them are loaded first, and
the first that fails to load ends the resolution.  Then every option is settled on its own: the
first source whose text is not blank decides, with the trimmed text, and if that is no value the
default stands and no further source is asked. -/

namespace AgentOptions

/-- A loaded source. -/
structure Layer where
  source : String
  values : RawValues

/-- The first text for an option that is not blank, trimmed, and the source that supplies it. -/
def supplied? (layers : List Layer) (n : OptionName) : Option (String × String) :=
  layers.findSome? fun layer =>
    ((layer.values n).map Text.trim).bind fun raw =>
      if raw = "" then none else some (layer.source, raw)

/-- The setting of an option, given the source and the text that decide. -/
def Setting.ofChoice (spec : OptionSpec) : Option (String × String) → Setting
  | none => .defaulted spec.default
  | some (source, raw) =>
    match spec.read raw with
    | .ok value => .supplied value source
    | .error error => .rejected spec.default ⟨source, raw, error⟩

/-- The events of settling an option. -/
def Setting.events (n : OptionName) (spec : OptionSpec) : Option (String × String) → List Event
  | none => [.notSupplied n]
  | some (source, raw) =>
    spec.warnings raw ++
      match spec.read raw with
      | .ok _ => [.resolved n source raw]
      | .error error => [.invalidValue n source raw error]

namespace Registry

/-- The snapshot of loaded sources. -/
def settle (registry : Registry) (layers : List Layer) : Snapshot :=
  ⟨fun n => .ofChoice (registry.spec n) (supplied? layers n)⟩

/-- The events of settling all options, in declared order. -/
def settleEvents (registry : Registry) (layers : List Layer) : List Event :=
  OptionName.all.flatMap fun n => Setting.events n (registry.spec n) (supplied? layers n)

end Registry

/-- A source that failed to load. -/
structure ResolutionError where
  source : String
  cause : SourceError
  deriving DecidableEq

namespace ResolutionError

def message (e : ResolutionError) : String :=
  "config source " ++ quoted e.source ++ " is unreadable"

/-- The message of the error, followed by those of its causes. -/
def messages (e : ResolutionError) : List String := e.message :: e.cause.messages

end ResolutionError

/-- Loads sources in order, up to the first that fails; the events are those of the sources that
were loaded. -/
def loadAll : List Source → Except ResolutionError (List Layer) × List Event
  | [] => (.ok [], [])
  | source :: rest =>
    match source.load OptionName.all with
    | .error cause => (.error ⟨source.name, cause⟩, [])
    | .ok loaded =>
      let others := loadAll rest
      (others.1.map (⟨source.name, loaded.values⟩ :: ·),
        loaded.events ++ .sourceLoaded source.name loaded.values.count :: others.2)

/-- What a resolution gives: a snapshot or the source that failed, and the events. -/
structure Resolution where
  result : Except ResolutionError Snapshot
  events : List Event

/-- Resolves all options from the sources. -/
def Registry.resolve (registry : Registry) (sources : List Source) : Resolution :=
  let loaded := loadAll sources
  let start := .resolving sources.length :: loaded.2
  match loaded.1 with
  | .error e => ⟨.error e, start⟩
  | .ok layers =>
    let snapshot := registry.settle layers
    ⟨.ok snapshot, start ++ registry.settleEvents layers ++
      [.resolutionDone snapshot.origins.length snapshot.rejections.length]⟩

end AgentOptions
