import AgentOptions.Bindings
import AgentOptions.ConfigFile
import AgentOptions.FileSystem
import AgentOptions.Registry

/-! # Sources of raw values

A source supplies raw texts for options.  Loading it for a list of options gives a text for each of
them that the source knows (`RawValues`), and the events of loading.

`Source` is what resolution needs of a source.  Three come with the program: overrides that it sets,
the variables of an environment, and a configuration file.  Of these only a file can fail to
load. -/

namespace AgentOptions

/-- A raw text for some of the options. -/
abbrev RawValues := OptionName → Option String

namespace RawValues

/-- The options that have a text, with it, in declared order. -/
def toList (values : RawValues) : List (OptionName × String) :=
  OptionName.all.filterMap fun n => (values n).map (n, ·)

/-- The number of options that have a text. -/
def count (values : RawValues) : Nat := values.toList.length

/-- The texts of the requested options only. -/
def restrict (requested : List OptionName) (values : RawValues) : RawValues :=
  fun n => if n ∈ requested then values n else none

end RawValues

/-! ### Overrides -/

/-- Raw texts set one after another, the latest first. -/
structure Overrides where
  name : String
  writes : List (OptionName × String)

namespace Overrides

def new (name : String) : Overrides := ⟨name, []⟩

/-- Sets the text of an option, in place of any it had. -/
def set (o : Overrides) (n : OptionName) (raw : String) : Overrides :=
  ⟨o.name, (n, raw) :: o.writes⟩

/-- The name and the text of an assignment `name=text`; the text is empty if there is no `=`. -/
def splitAssignment (assignment : String) : String × String :=
  match Text.cutAt '=' assignment.toList with
  | some (name, raw) => (Text.trim (String.ofList name), String.ofList raw)
  | none => (Text.trim assignment, "")

/-- Carries out an assignment; the error is a name that is no option's. -/
def assign (o : Overrides) (assignment : String) : Except String Overrides :=
  match OptionName.ofText? (splitAssignment assignment).1 with
  | some n => .ok (o.set n (splitAssignment assignment).2)
  | none => .error (splitAssignment assignment).1

def values (o : Overrides) : RawValues := fun n => o.writes.lookup n

theorem values_set (o : Overrides) (n m : OptionName) (raw : String) :
    (o.set n raw).values m = if m = n then some raw else o.values m :=
  Bindings.lookup_cons_eq_ite m n raw o.writes

end Overrides

/-! ### Environments -/

/-- Variables and their contents; the last of several with one name counts. -/
abbrev Environment := List (String × SystemText)

namespace Environment

def get? (env : Environment) (name : String) : Option SystemText := env.reverse.lookup name

def values (env : Environment) : RawValues :=
  fun n => (env.get? n.variableName).bind SystemText.text?

/-- A warning for each requested option whose variable is no text. -/
def warnings (env : Environment) (requested : List OptionName) : List Event :=
  requested.filterMap fun n =>
    match env.get? n.variableName with
    | some (.bytes _) => some (.undecodableVariable n.variableName)
    | _ => none

end Environment

/-! ### Files -/

/-- Why a source cannot be loaded. -/
inductive SourceError where
  | unreadable (path : String) (reason : ReadFailure)
  | malformed (path : String) (line : ConfigFile.Malformed)
  deriving DecidableEq

/-- The message of an error, followed by those of its causes. -/
def SourceError.messages : SourceError → List String
  | unreadable path reason => ["failed to read " ++ path, reason.message]
  | malformed path line =>
    [path ++ ":" ++ Integer.text line.line ++ ": expected `key = value`, found " ++
      quoted line.text]

/-- The text of a file. -/
def FileContent.text (path : String) : FileContent → Except SourceError String
  | failure reason => .error (.unreadable path reason)
  | bytes content =>
    match Utf8.text? content with
    | some s => .ok s
    | none => .error (.unreadable path .notUtf8)

/-- The assignments of a file. -/
def FileContent.assignments (path : String) (file : FileContent) :
    Except SourceError (List (String × String)) :=
  match file.text path with
  | .error e => .error e
  | .ok content =>
    match ConfigFile.read content with
    | .ok assignments => .ok assignments
    | .error line => .error (.malformed path line)

/-- The keys of a file that belong to no requested option. -/
def unknownKeys (requested : List OptionName) (assignments : List (String × String)) :
    List String :=
  (ConfigFile.keys assignments).filter fun key => !requested.any fun n => n.fileKey == key

/-! ### Loading -/

/-- The values of a source, and the events of loading it. -/
structure Loaded where
  values : RawValues
  events : List Event

/-- Anything that raw texts are loaded from.  Resolution knows a source by its name and by what it
loads, and by nothing else. -/
structure Source where
  name : String
  /-- Loads the texts of the requested options. -/
  load : List OptionName → Except SourceError Loaded
  /-- What a source reports is about itself, not about how options are settled. -/
  quiet : ∀ {requested : List OptionName} {loaded : Loaded}, load requested = .ok loaded →
    ∀ e ∈ loaded.events, ¬ e.IsSettling

theorem Environment.not_isSettling_of_mem_warnings {env : Environment}
    {requested : List OptionName} {e : Event} (h : e ∈ env.warnings requested) :
    ¬ e.IsSettling := by
  obtain ⟨n, -, hn⟩ := List.mem_filterMap.mp h
  split at hn
  · cases hn
    exact id
  · cases hn

namespace Source

/-- Overrides as a source. -/
def overrides (o : Overrides) : Source where
  name := o.name
  load requested := .ok ⟨o.values.restrict requested, []⟩
  quiet h := by
    cases h
    simp

/-- The variables of an environment as a source. -/
def environment (env : Environment) : Source where
  name := "env"
  load requested := .ok ⟨env.values.restrict requested, env.warnings requested⟩
  quiet h := by
    cases h
    exact fun e => Environment.not_isSettling_of_mem_warnings

/-- A file as a source. -/
def file (path : String) (content : FileContent) : Source where
  name := "ini:" ++ path
  load requested := (content.assignments path).map fun assignments =>
    { values := RawValues.restrict requested fun n => ConfigFile.value? assignments n.fileKey
      events := (unknownKeys requested assignments).map fun key => .unknownKey key path }
  quiet h := by
    cases ha : content.assignments path with
    | error cause =>
        rw [ha] at h
        cases h
    | ok assignments =>
        rw [ha] at h
        cases h
        intro e he
        obtain ⟨key, -, rfl⟩ := List.mem_map.mp he
        exact id

theorem load_file {path : String} {content : FileContent} {assignments : List (String × String)}
    (h : content.assignments path = .ok assignments) (requested : List OptionName) :
    (file path content).load requested =
      .ok ⟨RawValues.restrict requested fun n => ConfigFile.value? assignments n.fileKey,
        (unknownKeys requested assignments).map (.unknownKey · path)⟩ := by
  simp only [file, h, Except.map]

theorem load_file_of_error {path : String} {content : FileContent} {cause : SourceError}
    (h : content.assignments path = .error cause) (requested : List OptionName) :
    (file path content).load requested = .error cause := by
  simp only [file, h, Except.map]

/-- The sources that the program comes with. -/
inductive Shipped : Source → Prop
  | overrides (o : Overrides) : Shipped (.overrides o)
  | environment (env : Environment) : Shipped (.environment env)
  | file (path : String) (content : FileContent) : Shipped (.file path content)

end Source

end AgentOptions
