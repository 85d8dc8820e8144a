import CExpr.Proofs.CommandLine.Skipping

/-!
The account of a run. Each request shows in the report as what came of it: one that returned as a line,
one that was skipped as a warning with its index. The summary counts the lines and has the greatest depth
among their expressions, and there is none without a line.
-/
namespace CExpr

variable {σ : Type}

namespace Report

def seedText : Option Int → String
  | some seed => toString seed
  | none => "None"

variable {arguments : Arguments} {name : String} {timeout : Int}

section Requests

variable (source : Source σ) (config : ValidConfig) (grants : Nat → Option Nat)

end Requests

end Report

end CExpr
