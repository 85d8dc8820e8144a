import CExpr.Term.Polynomial

/-!
Facts about the products and quotients in a term: what holds of them whatever their operands are.
-/
namespace CExpr

namespace Term

def isLight (c : Word) : Bool := Polynomial.weight c ≤ 4

def isHeavy : Term → Bool
  | binary .mult (word c) _ => !isLight c
  | binary .mult lhs rhs => !lhs.isTruth && !rhs.isTruth
  | binary .div _ _ => true
  | _ => false

def all (terms : List Term) : Term := terms.foldr (binary .logicalAnd) (word 1)

def divisionFact (dividend divisor : Term) : Term :=
  let quotient := binary .div dividend divisor
  let product := binary .mult quotient divisor
  let remainder := binary .minus dividend product
  let largest := binary .div (word (-1)) divisor
  binary .logicalOr
    (all [unary .logicalNot divisor, binary .eq quotient (word (-1)),
      binary .eq remainder dividend])
    (all [binary .lt remainder divisor, binary .le remainder dividend,
      binary .le quotient dividend, binary .le quotient largest, binary .le quotient product,
      binary .eq (unary .logicalNot quotient) (binary .lt dividend divisor),
      binary .logicalOr (unary .logicalNot quotient) (binary .le divisor product)])

/-- What holds of a product: a term that is never zero. A factor that is zero makes it zero, and an
odd one makes it zero only together with the other. -/
def productFact (lhs rhs : Term) : Term :=
  let zero := unary .logicalNot (binary .mult lhs rhs)
  binary .logicalAnd
    (binary .logicalOr (binary .logicalAnd lhs rhs) zero)
    (binary .logicalOr (unary .logicalNot (binary .bitAnd (word 1) lhs))
      (binary .eq zero (unary .logicalNot rhs)))

def facts (term : Term) : List Term :=
  match term with
  | word _ | symbol _ => []
  | unary _ operand => operand.facts
  | binary op lhs rhs =>
    let fact :=
      if !term.isHeavy then []
      else if op = .div then [normal (divisionFact lhs rhs)]
      else [normal (productFact lhs rhs)]
    (fact ++ lhs.facts ++ rhs.facts).eraseDups

end Term

end CExpr
