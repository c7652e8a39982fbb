import AgentOptions.Command.Report
import AgentOptions.Registry

/-! # Listing the options and trying patterns

Three commands that read no configuration: a list of the options, the texts that one pattern
describes, and the first pattern of a list that describes each text. -/

namespace AgentOptions

/-- What the list tells about an option. -/
structure OptionRow where
  name : String
  kind : String
  variableName : String
  fileKey : String
  default : Option String

namespace OptionRow

def ofEntry (e : Registry.Entry) : OptionRow where
  name := e.1.text
  kind := e.2.kind.text
  variableName := e.1.variableName
  fileKey := e.1.fileKey
  default := e.2.default.raw?

def json (r : OptionRow) : Json :=
  .object [("name", .string r.name), ("kind", .string r.kind), ("env_var", .string r.variableName),
    ("ini_key", .string r.fileKey),
    ("default", match r.default with
      | some raw => .string raw
      | none => .null)]

/-- The rows of the built-in registry, or of its log-level options only. -/
def all (logLevelsOnly : Bool) : List OptionRow :=
  (Registry.builtin.entries.filter fun e => !logLevelsOnly || e.1.setsLogLevel).map ofEntry

/-- The rows as a table with aligned columns. -/
def table (rows : List OptionRow) : String :=
  let column (text : OptionRow → String) (r : OptionRow) : String :=
    Table.padded (Table.width (rows.map text)) (text r) ++ "  "
  Table.lines <| rows.map fun r =>
    column name r ++ column kind r ++ column variableName r ++ column fileKey r ++
      r.default.getD Table.unset

end OptionRow

/-- Lists the options. -/
def listOptions (logLevelsOnly json : Bool) : Report :=
  let rows := OptionRow.all logLevelsOnly
  .success (if json then (Json.array (rows.map OptionRow.json)).pretty ++ "\n"
    else OptionRow.table rows) []

/-- Tells for each text whether the pattern describes it. -/
def tryPattern (pattern : String) (texts : List String) : Report :=
  let p := Pattern.ofText pattern
  .success (Table.lines (p.text :: texts.map fun text =>
    OptionValue.boolText (p.accepts text) ++ "\t" ++ text)) []

/-- Tells for each text the first pattern of the list that describes it. -/
def tryPatterns (list : String) (texts : List String) : Report :=
  let l := PatternList.ofText list
  .success (Table.lines (texts.map fun text =>
    ((l.firstMatch? text).map Pattern.text).getD Table.unset ++ "\t" ++ text))
    [.compiledPatterns l.patterns.length l.text]

end AgentOptions
