import CExpr.Double.Rounding
import CExpr.Double.Shortest
import CExpr.Text.Quoted
import CExpr.Vocabulary

/-!
The weights that one step of generation draws by: one for each kind of expression and one for each
kind of type. A weight is a double that is zero or more, infinity included, and never `nan`; a
change that would break this is refused and leaves no trace, since values are never overwritten.
-/
namespace CExpr

abbrev Weight := { weight : Double // weight.isNonnegative = true }

structure Weights where
  expr : Vector Weight 5
  type : Vector Weight 3

inductive WeightError
  | notNonnegative (value : Double)
  | exprCount (count : Nat)
  | typeCount (count : Nat)
  /-- A member of a vocabulary that has no weights. -/
  | notWeighted (vocabulary : Vocabulary)
  deriving DecidableEq

inductive WeightSlot
  | expr (kind : ExprKind)
  | type (kind : TypeKind)
  deriving DecidableEq

def Member.slot? (member : Member) : Option WeightSlot :=
  match member.vocabulary with
  | .exprKind => ExprKind.all[member.value]?.map .expr
  | .typeKind => TypeKind.all[member.value]?.map .type
  | _ => none

def Weight.check (value : Double) : Except WeightError Weight :=
  if legal : value.isNonnegative then .ok ⟨value, legal⟩ else .error (.notNonnegative value)

def Weight.zero : Weight := ⟨.zero false, rfl⟩

namespace Weights

/-- Weights from two lists, the first of which is checked first. No list stands for zeros. -/
def ofLists (exprs types : Option (List Double)) : Except WeightError Weights := do
  let exprs := exprs.getD (List.replicate 5 (.zero false))
  let types := types.getD (List.replicate 3 (.zero false))
  if exprCount : exprs.length = 5 then
    if typeCount : types.length = 3 then
      let expr ← (⟨exprs.toArray, exprCount⟩ : Vector Double 5).mapM Weight.check
      let type ← (⟨types.toArray, typeCount⟩ : Vector Double 3).mapM Weight.check
      return ⟨expr, type⟩
    else throw (.typeCount types.length)
  else throw (.exprCount exprs.length)

def exprList (weights : Weights) : List Double := weights.expr.toList.map (·.val)

def typeList (weights : Weights) : List Double := weights.type.toList.map (·.val)

def get (weights : Weights) : WeightSlot → Double
  | .expr kind => weights.expr[kind.index].val
  | .type kind => weights.type[kind.index].val

def set (weights : Weights) (slot : WeightSlot) (value : Double) : Except WeightError Weights :=
  (Weight.check value).map fun weight =>
    match slot with
    | .expr kind => { weights with expr := weights.expr.set kind.index weight }
    | .type kind => { weights with type := weights.type.set kind.index weight }

def scale (weights : Weights) (slot : WeightSlot) (factor : Double) : Except WeightError Weights :=
  weights.set slot ((weights.get slot).mul factor)

def same (a b : Weights) : Bool :=
  (List.zipWith Double.equals (a.exprList ++ a.typeList) (b.exprList ++ b.typeList)).all id

def listText (values : List Double) : String := Text.bracketed (values.map Double.text)

def description (weights : Weights) : String :=
  s!"Weights(expr={listText weights.exprList}, type={listText weights.typeList})"

end Weights

def WeightError.message : WeightError → String
  | notNonnegative value => s!"weight must be non-negative, got {value.text}"
  | exprCount count => s!"expected 5 expression weights, got {count}"
  | typeCount count => s!"expected 3 type weights, got {count}"
  | notWeighted vocabulary =>
    s!"weights are indexed by ExprKind or TypeKind, not {vocabulary.name}"

end CExpr
