import Spreadsheet.Http.Server
import Spreadsheet.Main
import Spreadsheet.Proofs.Graph.Rebuild
import Spreadsheet.Proofs.Graph.Building
import Spreadsheet.Proofs.Recalculation.Agreement
import Spreadsheet.Proofs.Engine.Settled
import Spreadsheet.Proofs.Engine.History
import Spreadsheet.Proofs.Engine.Rejection
import Spreadsheet.Proofs.Engine.Rows
import Spreadsheet.Proofs.Engine.Locality
import Spreadsheet.Proofs.Engine.Diagnostics
import Spreadsheet.Proofs.Engine.Taint
import Spreadsheet.Proofs.Engine.Reapplication
import Spreadsheet.Proofs.Engine.Aliases
import Spreadsheet.Proofs.Engine.Explanation
import Spreadsheet.Proofs.Engine.Delivery
import Spreadsheet.Proofs.Worker.Serial
import Spreadsheet.Proofs.Http.Edits
import Spreadsheet.Proofs.Graph.Components
import Spreadsheet.Proofs.Graph.Walks
import Spreadsheet.Proofs.Graph.Distances
import Spreadsheet.Proofs.Recalculation.Depth
import Spreadsheet.Proofs.Recalculation.Relaxation
import Spreadsheet.Proofs.Recalculation.Refusal
import Spreadsheet.Proofs.Recalculation.Precedents
import Spreadsheet.Proofs.Recalculation.AnyOrder
import Spreadsheet.Proofs.Recalculation.Frontiers
import Spreadsheet.Proofs.Recalculation.Resting
import Spreadsheet.Proofs.Formula.Display
import Spreadsheet.Proofs.Formula.Names
import Spreadsheet.Proofs.Formula.Encoding
import Spreadsheet.Proofs.Cell.Codec
import Spreadsheet.Proofs.Cell.Usage
import Spreadsheet.Proofs.CommandLine.Validation
import Spreadsheet.Proofs.CommandLine.Numbers
import Spreadsheet.Proofs.Text.ByteOrder
import Spreadsheet.Proofs.Sheet.Numbers
