import Comprehension.CallTree
import Comprehension.Chain.Assembly
import Comprehension.Expr.Inspect
import Comprehension.Json.Writer
import Comprehension.Report.Chain
import Comprehension.Sample
import Comprehension.Tagged.Reading
import Comprehension.Tagged.Settings
import Comprehension.Proofs.Chain.Composition
import Comprehension.Proofs.Chain.Faults
import Comprehension.Proofs.Chain.Identifiers
import Comprehension.Proofs.Chain.Meaning
import Comprehension.Proofs.Chain.Registration
import Comprehension.Proofs.Chain.Spelling
import Comprehension.Proofs.Chain.Writing
import Comprehension.Proofs.Expr.Capture
import Comprehension.Proofs.Expr.Consistency
import Comprehension.Proofs.Expr.Mentions
import Comprehension.Proofs.Expr.Recovery
import Comprehension.Proofs.Expr.Uniqueness
import Comprehension.Proofs.Expr.Walks
import Comprehension.Proofs.Model.Execution
import Comprehension.Proofs.Tagged.Expr
