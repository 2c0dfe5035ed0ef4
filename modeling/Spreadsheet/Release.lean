/-! # Release
The names and the version that the program shows of itself. -/

namespace Spreadsheet.Release

/-- The name of the program. -/
def program : String := "SheetForge"

/-- The name of the command. -/
def command : String := "sheetforge"

/-- The version. -/
def version : String := "0.1.0"

end Spreadsheet.Release
