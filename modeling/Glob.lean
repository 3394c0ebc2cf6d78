import Glob.Options.Config
import Glob.Options.Dialect
import Glob.FileTree.Build
import Glob.Search
import Glob.Proofs.Chain
import Glob.Proofs.Quantifier
import Glob.Proofs.Sweep
import Glob.Proofs.Detach
import Glob.Proofs.Cut
import Glob.Proofs.TwoEnded
import Glob.Proofs.Depth
import Glob.Proofs.Forward
import Glob.Proofs.Locality
import Glob.Proofs.Leading
import Glob.Proofs.Derivation
import Glob.Proofs.Compiled
import Glob.Proofs.Admissible
import Glob.Proofs.Walk
import Glob.Proofs.Exploration
import Glob.Proofs.Schedule
import Glob.Proofs.HiddenPeriods
import Glob.Proofs.BraceProduct
import Glob.Proofs.NormalForm
import Glob.Proofs.Escaped
import Glob.Proofs.Rendering
import Glob.Proofs.Interchange
import Glob.Proofs.Widening
import Glob.Proofs.Reach
import Glob.Proofs.Selection
import Glob.Proofs.Resolution
import Glob.Proofs.Reachable
import Glob.Proofs.Form
import Glob.Proofs.ListLaws
import Glob.Proofs.ZeroDirectories
import Glob.Proofs.Faultless
import Glob.Proofs.Crossing
import Glob.Proofs.LastPiece
import Glob.Proofs.SeparatorCount
import Glob.Proofs.AnyDirectory
import Glob.Proofs.FinalStar
import Glob.Proofs.ReadForm
import Glob.Proofs.Seam
import Glob.Proofs.BaseLetters
import Glob.Proofs.UnclosedBrace
import Glob.Proofs.Visibility
import Glob.Proofs.Cause
import Glob.Proofs.OpenBracket
import Glob.Proofs.UnclosedBracket
import Glob.Proofs.Delivery
import Glob.Proofs.Branches
import Glob.Proofs.Session
import Glob.Proofs.BreakDown
import Glob.Proofs.BaseFailure
import Glob.Proofs.Configuration
import Glob.Proofs.Continuations
import Glob.Proofs.Repetition
import Glob.Proofs.Nesting
