import ScalarC.CommandLine.Directory
import ScalarC.Json.Diagnostic
import ScalarC.Json.Writer
import ScalarC.Main
import ScalarC.Proofs.CText.Declarations
import ScalarC.Proofs.CText.Division
import ScalarC.Proofs.Paths.Code
import ScalarC.Proofs.Paths.Source
import ScalarC.Proofs.Run.Fuel
import ScalarC.Proofs.Name.Symbol
import ScalarC.Proofs.Name.Derived
import ScalarC.Proofs.Name.FileScope
import ScalarC.Proofs.Name.BlockScope
import ScalarC.Proofs.Lowering.Correspondence
import ScalarC.Proofs.Lowering.Agreement
import ScalarC.Proofs.Lowering.Respelling
import ScalarC.Proofs.Lowering.Order
import ScalarC.Proofs.Lowering.Overflow
import ScalarC.Proofs.Lowering.Aliases
import ScalarC.Proofs.Name.Freshness
import ScalarC.Proofs.Json.RoundTrip
import ScalarC.Proofs.Name.Ambiguity
import ScalarC.Proofs.Lowering.Failure
import ScalarC.Proofs.Paths.Unassigned
import ScalarC.Proofs.Paths.Return
import ScalarC.Proofs.Lowering.AliasCalls
import ScalarC.Proofs.Name.CanonicalSpelling
import ScalarC.Proofs.CText.Conversion
import ScalarC.Proofs.CText.StringLiteral
import ScalarC.Proofs.CText.StringConstants
import ScalarC.Proofs.Ratio
import ScalarC.Proofs.Scalar.Container
import ScalarC.Proofs.CText.Prototypes
import ScalarC.Proofs.CText.Comments
import ScalarC.Proofs.Name.CanonicalForm
import ScalarC.Proofs.LocalTable.Series
import ScalarC.Proofs.Sample.Lowering
import ScalarC.Proofs.Sample.Sums
import ScalarC.Proofs.CText.OpLines
import ScalarC.Proofs.CText.OpBlocks
import ScalarC.Proofs.Lowering.Routines
import ScalarC.Proofs.CText.FunctionText
import ScalarC.Proofs.CText.BodyNames
import ScalarC.Proofs.Lowering.Numbering
