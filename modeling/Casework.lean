import Casework.Document.Writer
import Casework.Folder
import Casework.Main
import Casework.TypeGraph.Lemmas
import Casework.Proofs.Balance
import Casework.Proofs.CatchAll
import Casework.Proofs.Congruence
import Casework.Proofs.CopiedText
import Casework.Proofs.Execution
import Casework.Proofs.ExprRoundTrip
import Casework.Proofs.Fallthrough
import Casework.Proofs.Finality
import Casework.Proofs.FirstMatch
import Casework.Proofs.Loads
import Casework.Proofs.Numbering
import Casework.Proofs.OrderFreedom
import Casework.Proofs.Parts
import Casework.Proofs.Routes
import Casework.Proofs.Soundness
import Casework.Proofs.Stores
import Casework.Proofs.TestedTags
import Casework.Proofs.Totality
import Casework.Proofs.TypeAcceptance
import Casework.Proofs.TypeRoundTrip
import Casework.Proofs.Usefulness
import Casework.Proofs.Verdict
