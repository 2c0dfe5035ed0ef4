import Spreadsheet.CommandLine.Command

/-! # The command
The entry point: it reads the files of the invocation and prints its outcome. The exit code is 0 on
success, 1 on failure and 2 if the arguments are not understood. -/

namespace Spreadsheet.CommandLine

/-- Reads a file as text, if it is there and is text. -/
def readText (name : String) : IO (Except SheetError String) := do
  try
    return .ok (← IO.FS.readFile name)
  catch _ => return .error .unreadableFile

/-- Reads files by their names. -/
def readTexts (names : List String) : IO (List (String × Except SheetError String)) :=
  names.mapM fun name => return (name, ← readText name)

/-- How the command is used. -/
def usage : String :=
  s!"Usage: {Release.command} calculate FILE [-v] [--json] | validate FILE... | audit FILE CELL"

/-- Runs the command with its arguments and gives the exit code. -/
def start (args : List String) : IO UInt32 := do
  match Invocation.ofArguments? args with
  | none =>
    IO.eprintln usage
    return 2
  | some invocation =>
    let texts ← readTexts invocation.files
    let outcome := invocation.run fun name => (texts.lookup name).getD (.error .unreadableFile)
    IO.print outcome.output
    match outcome.result with
    | .ok () => return 0
    | .error cause =>
      IO.eprintln (errorLine cause)
      return 1

end Spreadsheet.CommandLine

/-- The entry point. -/
def main (args : List String) : IO UInt32 := Spreadsheet.CommandLine.start args
