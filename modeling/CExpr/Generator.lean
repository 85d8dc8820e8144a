import CExpr.Draw.Basic
import CExpr.Expr.Basic
import CExpr.Config.Basic

/-!
Random expressions. Each step draws a kind, dampens that kind's weight for everything below, draws
what the kind needs, and finally tosses a coin for a pair of parentheses. Weights are passed down
and never back, so what happens in one operand cannot change the odds in another. An operand gets
parentheses where the text would otherwise group differently.
-/
namespace CExpr

namespace Expr

/-- A binary expression whose operands keep their grouping in its text. On the right a level equal
to the operator's already needs parentheses, since operators group to the left. -/
def binaryOf (op : BinOp) (lhs rhs : Expr) : Expr :=
  let lhs := if op.precedence < lhs.precedence then parens lhs else lhs
  let rhs := if op.precedence ≤ rhs.precedence then parens rhs else rhs
  binary op lhs rhs

def unaryOf (op : UnOp) (operand : Expr) : Expr :=
  unary op (if UnOp.precedence < operand.precedence then parens operand else operand)

end Expr

namespace Generator

def ofKind (source : Source σ) (config : Config) (name : String) (operand : Draw σ Expr) :
    ExprKind → Draw σ Expr
  | .integerConstant => do
    return .integer (← source.integer config.integerMin config.integerMax)
  | .doubleConstant => do return .double (← source.real config.doubleMin config.doubleMax)
  | .variableExpr => return .var name
  | .binaryExpr => do
    let op ← source.binOp config.binOps
    let lhs ← operand
    let rhs ← operand
    return .binaryOf op lhs rhs
  | .unaryExpr => do
    let op ← source.unOp config.unOps
    return .unaryOf op (← operand)

def draw (source : Source σ) (config : Config) (name : String) :
    (depth : Nat) → Weights → Draw σ Expr
  | 0, _ => .fail .tooDeep
  | depth + 1, weights => do
    let kind ← source.exprKind weights
    let dampened ← Draw.ofExcept <|
      (weights.scale (.expr kind) (config.exprKind kind).dampening).mapError .weight
    let bare ← ofKind source config name (draw source config name depth dampened) kind
    let wrapped ← source.coin config.parenthesize
    return if wrapped then .parens bare else bare

def generate (source : Source σ) (config : ValidConfig) (name : String) (depth : Nat) :
    Draw σ Expr := do
  let weights ← Draw.ofExcept ((Weights.ofConfig config.val).mapError .weight)
  draw source config.val name depth weights

/-- How deep the kinds of a run may be nested. Dampening makes this depth all but unreachable. -/
def depthLimit : Nat := 4096

end Generator
end CExpr
