import AgentOptions.Command.Arguments
import AgentOptions.Command.Listing
import AgentOptions.Command.LogFilter
import AgentOptions.Command.Show

/-! # The program

The first argument that is no flag names a command, and what follows it are the arguments of that
command.  `Program.run` gives the report of a command line; its events are those that are logged. -/

namespace AgentOptions

/-- The commands. -/
inductive CommandName where
  | show
  | options
  | tryPattern
  | tryPatterns
  deriving DecidableEq

namespace CommandName

def all : List CommandName := [.show, options, tryPattern, tryPatterns]

def text : CommandName → String
  | .show => "show"
  | options => "options"
  | tryPattern => "match"
  | tryPatterns => "check-list"

def summary : CommandName → String
  | .show => "Resolve every option from overrides, environment and ini file"
  | options => "List registered options with their kinds and defaults"
  | tryPattern => "Test texts against a single wildcard pattern"
  | tryPatterns => "Find the first pattern of a comma-separated wildcard list matching each text"

def ofText? (s : String) : Option CommandName := all.find? fun c => c.text == s

end CommandName

namespace Program

def name : String := "otel-options"

def version : String := "0.2.0"

/-- The variable that names the configuration file if no flag does. -/
def fileVariable : String := "ELASTIC_OTEL_INI_FILE"

/-- The variable that holds the filter of the log. -/
def filterVariable : String := "RUST_LOG"

/-- The flags of every command. -/
def commonFlags : List Flag :=
  [⟨"verbose", some 'v', .switch⟩, ⟨"help", some 'h', .help⟩, ⟨"version", some 'V', .version⟩]

/-- What each command takes. -/
def form : CommandName → Form
  | .show =>
    ⟨[⟨"ini", none, .valued true false⟩, ⟨"set", some 's', .valued false true⟩,
      ⟨"no-env", none, .switch⟩, ⟨"json", none, .switch⟩] ++ commonFlags, false⟩
  | .options => ⟨[⟨"log-levels", none, .switch⟩, ⟨"json", none, .switch⟩] ++ commonFlags, false⟩
  | .tryPattern | .tryPatterns => ⟨commonFlags, true⟩

/-- A command line: a command with its arguments, or what ended its reading. -/
inductive Invocation where
  | command (c : CommandName) (verbose : Bool) (arguments : Arguments)
  | help (c : Option CommandName)
  | version (c : Option CommandName)
  | misuse

/-- What follows the word `help`: nothing, or the name of a command. -/
def helpOf : List String → Invocation
  | [] | ["help"] => .help none
  | [s] =>
    match CommandName.ofText? s with
    | some c => .help (some c)
    | none => .misuse
  | _ => .misuse

/-- The end of reading, for a command or the program itself. -/
def stopped (c : Option CommandName) : Stop → Invocation
  | .misuse => .misuse
  | .help => .help c
  | .version => .version c

/-- Reads the arguments of a command. -/
def readCommand (c : CommandName) (verbose : Bool) (args : List String) : Invocation :=
  match Arguments.read (form c) args with
  | .ok a => .command c (verbose || a.has "verbose") a
  | .error stop => stopped (some c) stop

/-- Reads the flags before the command, and then the command. -/
def readFrom (r : Arguments.Reader) : List String → Invocation
  | [] => .misuse
  | s :: rest =>
    if r.literal then .misuse
    else if s = "help" then helpOf rest
    else
      match CommandName.ofText? s with
      | some c => readCommand c (r.arguments.has "verbose") rest
      | none =>
        match Arguments.readOne ⟨commonFlags, false⟩ r s with
        | .ok next => readFrom next rest
        | .error stop => stopped none stop

/-- Reads a command line. -/
def read (args : List String) : Invocation := readFrom ⟨.empty, none, false⟩ args

/-- The program and the command in a version line. -/
def versionText (c : Option CommandName) : String :=
  name ++ (c.elim "" fun c => "-" ++ c.text) ++ " " ++ version ++ "\n"

/-- A short account of the commands. -/
def helpText (c : Option CommandName) : String :=
  Table.lines <| match c with
    | some c => [c.summary, "", "Usage: " ++ name ++ " " ++ c.text ++ " [OPTIONS]"]
    | none =>
      ["Usage: " ++ name ++ " [OPTIONS] <COMMAND>", "", "Commands:"] ++
        CommandName.all.map fun c =>
          "  " ++ Table.padded (Table.width (CommandName.all.map CommandName.text)) c.text ++
            "  " ++ c.summary

/-- The configuration file: the one that a flag names, else the one that the environment names.
An empty name is refused. -/
def configurationFile (env : Environment) (a : Arguments) : Except Stop (Option SystemText) :=
  match a.values "ini" with
  | path :: _ => .ok (some (.text path))
  | [] =>
    match env.get? fileVariable with
    | none => .ok none
    | some path => if path.size = 0 then .error .misuse else .ok (some path)

/-- The path that a command line makes the program read, if there is one. -/
def wantedFile? (env : Environment) (args : List String) : Option SystemText :=
  match read args with
  | .command .show _ a =>
    match configurationFile env a with
    | .ok file => file
    | .error _ => none
  | _ => none

/-- The report of a command. -/
def runCommand (host : Host) (c : CommandName) (a : Arguments) : Report :=
  match c, a.operands with
  | .show, _ =>
    match configurationFile host.environment a with
    | .error _ => .misuse
    | .ok file =>
      ShowRequest.run ⟨file, a.values "set", !a.has "no-env", a.has "json"⟩ host
  | .options, _ => listOptions (a.has "log-levels") (a.has "json")
  | .tryPattern, pattern :: texts => tryPattern pattern texts
  | .tryPatterns, list :: texts => tryPatterns list texts
  | _, [] => .misuse

/-- The directives for the log: those of the filter text, and last one for all other events. -/
def directives (env : Environment) (verbose : Bool) : List Directive :=
  let otherwise := Directive.overall (if verbose then .debug else .warn)
  (((env.get? filterVariable).bind SystemText.text?).elim [] Directive.readAll) ++ [otherwise]

/-- Runs a command line; of the events only those that are logged remain. -/
def run (host : Host) (args : List String) : Report :=
  match read args with
  | .misuse => .misuse
  | .help c => .success (helpText c) []
  | .version c => .success (versionText c) []
  | .command c verbose a =>
    let report := runCommand host c a
    let logged := Event.isLogged (directives host.environment verbose)
    { report with events := report.events.filter logged }

end Program

end AgentOptions
