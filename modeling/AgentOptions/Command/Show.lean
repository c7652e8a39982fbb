import AgentOptions.Command.Report
import AgentOptions.Resolution

/-! # Showing the resolved options

The command resolves all options from its own assignments, the environment and a configuration
file, in this order of precedence, and prints a table or a document. -/

namespace AgentOptions

/-- What surrounds the program. -/
structure Host where
  environment : Environment
  fileAt : SystemText → FileContent

/-- What is asked of the command. -/
structure ShowRequest where
  /-- The path of a configuration file. -/
  file : Option SystemText
  assignments : List String
  useEnvironment : Bool
  json : Bool

namespace ShowRequest

/-- Carries out assignments in order; the error is the first that names no option, with the name. -/
def assignAll (o : Overrides) : List String → Except (String × String) Overrides
  | [] => .ok o
  | assignment :: rest =>
    match o.assign assignment with
    | .ok changed => assignAll changed rest
    | .error name => .error (assignment, name)

/-- The sources of the command, the highest precedence first. -/
def sources (request : ShowRequest) (host : Host) (overrides : Overrides) : List Source :=
  [Source.overrides overrides] ++
    (if request.useEnvironment then [Source.environment host.environment] else []) ++
    (request.file.toList.map fun path => Source.file path.shown (host.fileAt path))

/-- A value in the table. -/
def valueText (v : OptionValue) : String := if v.isNull then Table.unset else v.text

/-- A line of the table: name, value, and where the value comes from. -/
def settingLine (width : Nat) (s : Snapshot) (n : OptionName) : String :=
  Table.padded width n.text ++ "  " ++ valueText (s.value n) ++ "  (" ++
    (s.origin? n).getD "default" ++ ")"

def rejectionLine (n : OptionName) (r : Rejection) : String :=
  "  " ++ n.text ++ " from " ++ r.source ++ ": " ++ r.error.message

/-- The lines under the table, one for each refused text. -/
def rejectionLines (s : Snapshot) : List String :=
  if s.rejections.isEmpty then []
  else ["", "Rejected values:"] ++ s.rejections.map fun r => rejectionLine r.1 r.2

/-- The table of all options. -/
def table (s : Snapshot) : String :=
  let width := Table.width (OptionName.all.map OptionName.text)
  Table.lines (OptionName.all.map (settingLine width s) ++ rejectionLines s)

/-- Runs the command.  An assignment that names no option ends it before any source is loaded. -/
def run (request : ShowRequest) (host : Host) : Report :=
  match assignAll (.new "cli") request.assignments with
  | .error (assignment, name) =>
    .failure ["Invalid --set value: " ++ assignment, unknownOptionMessage name] []
  | .ok overrides =>
    let resolution := Registry.builtin.resolve (request.sources host overrides)
    match resolution.result with
    | .error e => .failure e.messages resolution.events
    | .ok snapshot =>
      .success (if request.json then snapshot.json.pretty ++ "\n" else table snapshot)
        resolution.events

end ShowRequest

end AgentOptions
