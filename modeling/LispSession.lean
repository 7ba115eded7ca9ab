import LispSession.Main
import LispSession.Session.Scripted
import LispSession.Proofs.Grammar
import LispSession.Proofs.TokenRow
import LispSession.Proofs.Progress
import LispSession.Proofs.Session.PlainLoop
import LispSession.Proofs.Session.Wiring
import LispSession.Proofs.Session.Refinement
import LispSession.Proofs.Session.Deeds
import LispSession.Proofs.Session.Invariant
import LispSession.Proofs.Nesting
import LispSession.Proofs.Evaluation.BigStep
import LispSession.Proofs.Evaluation.Soundness
import LispSession.Proofs.Evaluation.Completeness
import LispSession.Proofs.Decimal.Nearest
import LispSession.Proofs.Decimal.Shortest
import LispSession.Proofs.Decimal.Bits
import LispSession.Proofs.Decimal.ReadBack
import LispSession.Proofs.Printed.Words
import LispSession.Proofs.Printed.Notation
import LispSession.Proofs.Printed.ReadBack
import LispSession.Proofs.Console
import LispSession.Proofs.Evaluation.Comparison
import LispSession.Proofs.Evaluation.DepthLimit
import LispSession.Proofs.Session.Halting
import LispSession.Proofs.Printed.Legible
import LispSession.Proofs.Frames
import LispSession.Proofs.Evaluation.Discipline
import LispSession.Proofs.Evaluation.Reach
import LispSession.Proofs.Evaluation.Closureless
import LispSession.Proofs.Session.Standard
import LispSession.Proofs.Persistence
import LispSession.Proofs.Printed.OneLine
import LispSession.Proofs.Session.ConsoleLines
import LispSession.Proofs.FirstWrong
import LispSession.Proofs.Course
import LispSession.Proofs.Labels
import LispSession.Proofs.Conservation
import LispSession.Proofs.Incomplete
import LispSession.Proofs.Prompting
import LispSession.Proofs.Evaluation.Blame
import LispSession.Proofs.Evaluation.Malformed
import LispSession.Proofs.Relabelling
import LispSession.Proofs.Evaluation.Relabelled
import LispSession.Proofs.Evaluation.Stages
import LispSession.Proofs.Evaluation.FreshLabels
import LispSession.Proofs.Evaluation.LetForm
import LispSession.Proofs.Composition
import LispSession.Proofs.Equality
import LispSession.Proofs.Evaluation.OneMemory
import LispSession.Proofs.Scopes
import LispSession.Proofs.ParameterLists
import LispSession.Proofs.Registry
import LispSession.Proofs.Traces
import LispSession.Proofs.Arithmetic
import LispSession.Proofs.Skipping
import LispSession.Proofs.Evaluation.Levels
import LispSession.Proofs.Evaluation.InRange
