import CExpr.CommandLine.Run
import CExpr.Draw.Sources
import CExpr.Expr.Reader
import CExpr.Main
import CExpr.Proofs.Generator.Stopping
import CExpr.Proofs.Generator.Dampening
import CExpr.Proofs.Generator.RoundTrip
import CExpr.Term.Equivalence
import CExpr.Weights.Registers
import CExpr.Proofs.Generator.Safety
import CExpr.Proofs.Expr.Equivalence
import CExpr.Proofs.Generator.Coins
import CExpr.Proofs.Reader.Stability
import CExpr.Proofs.Generator.Conformance
import CExpr.Proofs.Generator.Trace
import CExpr.Proofs.CommandLine.ReadBack
import CExpr.Proofs.Config.Overlay
import CExpr.Proofs.CommandLine.BadFile
import CExpr.Proofs.CommandLine.Stream
import CExpr.Proofs.Reader.Reprint
import CExpr.Proofs.Reader.FirstError
import CExpr.Proofs.Expr.ReferenceOutcome
import CExpr.Proofs.Expr.Residue
import CExpr.Proofs.Generator.NeededParens
import CExpr.Proofs.Expr.Boundaries
import CExpr.Proofs.Expr.Inlining
import CExpr.Proofs.Expr.Laws
import CExpr.Proofs.Expr.SymbolTable
import CExpr.Proofs.CommandLine.Column
import CExpr.Proofs.Draw.Intervals
import CExpr.Proofs.Draw.Refusal
import CExpr.Proofs.Mask.Selection
import CExpr.Proofs.Config.Usable
import CExpr.Proofs.Mask.OutOfRange
import CExpr.Proofs.Mask.Builders
import CExpr.Proofs.Weights.Histories
import CExpr.Proofs.CommandLine.Accounting
import CExpr.Proofs.Expr.Traversal
import CExpr.CommandLine.Help
