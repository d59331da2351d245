import Ordo.Application
import Ordo.Endpoint
import Ordo.Estimate
import Ordo.Proofs.BaseCases
import Ordo.Proofs.CacheFailures
import Ordo.Proofs.CallPositions
import Ordo.Proofs.CommentDrawings
import Ordo.Proofs.Comparisons
import Ordo.Proofs.ConditionalLists
import Ordo.Proofs.ControlFlow
import Ordo.Proofs.Declarations
import Ordo.Proofs.Dimensions
import Ordo.Proofs.Drafts
import Ordo.Proofs.ExpressionTexts
import Ordo.Proofs.Fallbacks
import Ordo.Proofs.FencedAnswers
import Ordo.Proofs.HitCounter
import Ordo.Proofs.KeptCases
import Ordo.Proofs.Labels
import Ordo.Proofs.Literals
import Ordo.Proofs.LoopLists
import Ordo.Proofs.MasterFailures
import Ordo.Proofs.NearestIf
import Ordo.Proofs.Negations
import Ordo.Proofs.PlainForms
import Ordo.Proofs.Serialization
import Ordo.Proofs.Sums
import Ordo.Proofs.Terminals
import Ordo.Proofs.TreeWork
import Ordo.Report
import Ordo.Settings
