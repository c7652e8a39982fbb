import AgentOptions.Command.Program

/-! # The executable

`main` collects what the program looks at, the variables of the environment and the configuration
file; what it does with them is `Program.run`.  The report goes to the two output streams. -/

namespace AgentOptions.Executable

/-- The variables that the program looks at. -/
def variableNames : List String :=
  OptionName.all.map OptionName.variableName ++ [Program.fileVariable, Program.filterVariable]

/-- The variables that are set. -/
def environment : IO Environment :=
  variableNames.filterMapM fun name => do
    return (← IO.getEnv name).map fun content => (name, .text content)

/-- Why a path could not be read. -/
def failureOf : IO.Error → ReadFailure
  | .noFileOrDirectory _ _ _ => .notFound
  | .inappropriateType _ 20 _ => .notDirectory
  | .inappropriateType _ 21 _ => .isDirectory
  | e => .other e.toString

/-- What reading a path gives. -/
def contentOf (path : String) : IO FileContent := do
  match ← (IO.FS.readBinFile path).toBaseIO with
  | .ok content => return .bytes content.toList
  | .error e => return .failure (failureOf e)

/-- Everything that the program needs for a command line. -/
def host (args : List String) : IO Host := do
  let env ← environment
  match Program.wantedFile? env args with
  | none => return ⟨env, fun _ => .failure .notFound⟩
  | some path =>
    let content ← contentOf path.shown
    return ⟨env, fun _ => content⟩

/-- Writes the log and the error to the error stream, and the output to the other one. -/
def emit (report : Report) : IO Unit := do
  for event in report.events do
    IO.eprintln event.line
  IO.print report.output
  if let some error := report.error then
    IO.eprint error

end AgentOptions.Executable

def main (args : List String) : IO UInt32 := do
  let report := AgentOptions.Program.run (← AgentOptions.Executable.host args) args
  AgentOptions.Executable.emit report
  return report.exit.toUInt32
