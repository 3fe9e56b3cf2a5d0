import Legalese.EvaluationByWord
import Legalese.Json.Reader
import Legalese.Main
import Legalese.Proofs.CommandLine
import Legalese.Proofs.Conditional
import Legalese.Proofs.Content
import Legalese.Proofs.Evaluation.Arithmetic
import Legalese.Proofs.Evaluation.Atomic
import Legalese.Proofs.Evaluation.Postorder
import Legalese.Proofs.Evaluation.Soundness
import Legalese.Proofs.Inventory
import Legalese.Proofs.Layered
import Legalese.Proofs.Layout
import Legalese.Proofs.Number.Format
import Legalese.Proofs.Occurrences
import Legalese.Proofs.Reading.Literal
import Legalese.Proofs.Tree
import Legalese.Proofs.Written.Literal
import Legalese.Sample
import Legalese.Token.Stream
import Legalese.Tree.Decode
import Legalese.Yaml.Reader
import Legalese.Proofs.Number.Nearest
import Legalese.Proofs.Relayout
import Legalese.Proofs.Subexpressions
import Legalese.Proofs.Totals
import Legalese.Proofs.Graph.Flow
import Legalese.Proofs.Json
import Legalese.Proofs.Graph.Label
import Legalese.Proofs.Stream
import Legalese.Proofs.Progress
