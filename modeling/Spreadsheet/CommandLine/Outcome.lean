import Spreadsheet.Error
import Spreadsheet.Text.Quoted

/-! # Outcomes
The **outcome** of a command is what it prints and whether it succeeds. A failure is told on the
error stream by its cause, written as a constructor with its details. -/

namespace Spreadsheet.CommandLine

/-- What a command prints and how it ends. -/
structure Outcome where
  /-- The printed lines. -/
  lines : List String
  /-- Whether it succeeds, or the cause of failure. -/
  result : Except SheetError Unit

namespace Outcome

/-- The outcome of a command that succeeds. -/
def ok (lines : List String) : Outcome := ⟨lines, .ok ()⟩

/-- What is printed, with a line break after each line. -/
def output (o : Outcome) : String := String.join (o.lines.map (· ++ "\n"))

/-- More lines in front. -/
def after (lines : List String) (o : Outcome) : Outcome := { o with lines := lines ++ o.lines }

end Outcome

/-- A list of quoted texts in brackets. -/
def quotedList (texts : List String) : String :=
  let items := ", ".intercalate (texts.map Text.quoted)
  s!"[{items}]"

/-- A cause of failure as a constructor with its details. -/
def causeText (cause : SheetError) : String :=
  match cause with
  | .cycle cells => s!"CircularDependency \x7b cells: {quotedList cells} \x7d"
  | .badDimensions width height =>
    s!"InvalidDimensions \x7b width: {width}, height: {height} \x7d"
  | _ =>
    let name := match cause.category with
      | .io => "Io"
      | .yaml => "Yaml"
      | .json => "Json"
      | .parse => "Parse"
      | .cycle => "CircularDependency"
      | .dimensions => "InvalidDimensions"
      | .validation => "Validation"
      | .unavailable => "EngineUnavailable"
    s!"{name}({Text.quoted cause.detail})"

/-- The line on the error stream for a cause of failure. -/
def errorLine (cause : SheetError) : String := s!"Error: {causeText cause}"

end Spreadsheet.CommandLine
