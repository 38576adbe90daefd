import Strided.Config.File
import Strided.Number.Series
import Strided.Program.File
import Strided.Proofs.Operator.Effect
import Strided.Proofs.Program.Refinement
import Strided.Proofs.Program.Soundness
import Strided.Proofs.Program.WellFormed
import Strided.Session.Run
import Strided.Proofs.Program.Storage
import Strided.Proofs.Program.Policy
import Strided.Proofs.Program.Structure
import Strided.Proofs.Program.Indifference
import Strided.Proofs.Program.Reference
import Strided.Proofs.Reshape.Agreement
import Strided.Proofs.Program.Trace
import Strided.Proofs.Session.Descriptors
import Strided.Proofs.Number.Decimal
import Strided.Proofs.Json.Numeral
import Strided.Proofs.Json.Reader
import Strided.Proofs.Json.Access
import Strided.Proofs.Shape.Draft
import Strided.Proofs.Program.RoundTrip
import Strided.Proofs.Alias.Blocks
import Strided.Proofs.Alias.Refusal
import Strided.Proofs.Reshape.Admissible
import Strided.Proofs.Reshape.Ranged
import Strided.Proofs.Reshape.Literal
import Strided.Proofs.Shape.Enumeration
import Strided.Proofs.Operator.Reachable
import Strided.Proofs.Alias.Bounds
import Strided.Proofs.Buffer.Overwrite
