import Retarget.Command.Workspace
import Retarget.Main
import Retarget.Proofs.ArrayExtents
import Retarget.Proofs.ArrayLengths
import Retarget.Proofs.BareValues
import Retarget.Proofs.CEffects
import Retarget.Proofs.CStmtBraces
import Retarget.Proofs.CTokens
import Retarget.Proofs.Concatenation
import Retarget.Proofs.ExitTests
import Retarget.Proofs.ExprComments
import Retarget.Proofs.FormatConversion
import Retarget.Proofs.FormattedPrint
import Retarget.Proofs.InsertedNames
import Retarget.Proofs.IntegerLiterals
import Retarget.Proofs.Jumps
import Retarget.Proofs.LayoutIndependence
import Retarget.Proofs.LeftNames
import Retarget.Proofs.LibraryWords
import Retarget.Proofs.NameSearch
import Retarget.Proofs.PrintForms
import Retarget.Proofs.PythonConversions
import Retarget.Proofs.PythonNesting
import Retarget.Proofs.RangeArguments
import Retarget.Proofs.StaticTypes
import Retarget.Proofs.StringTokens
import Retarget.Proofs.SwitchComments
