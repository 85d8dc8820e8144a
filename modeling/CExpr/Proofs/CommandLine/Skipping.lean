import CExpr.Proofs.CommandLine.Stream
import CExpr.Proofs.Generator.Interruption

/-!
Requests one after the other. A request ends with an expression, or it is skipped when its time was over
before it could return. Either way it has made certain calls, and what the later requests come to is told
by the state that these calls leave: a request that is skipped has no other part in them.
-/
namespace CExpr

variable {σ : Type}

namespace Iteration

def calls (source : Source σ) (config : ValidConfig) (name : String) (s : σ) : List DrawCall :=
  (Generator.generate source.traced config name Generator.depthLimit (s, [])).2.2

/-- Of the calls of a request those that it makes before its time is over. -/
def spent : Option Nat → List DrawCall → List DrawCall
  | none, calls => calls
  | some draws, calls => calls.take draws

variable {source : Source σ} {config : ValidConfig} {name : String} {grants : Nat → Option Nat}

end Iteration

end CExpr
