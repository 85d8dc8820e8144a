import CExpr.Builtin
import CExpr.Double.Basic
import CExpr.Double.Shortest
import CExpr.Operator

/-!
Expression trees. Parentheses are nodes of their own: a tree is written with exactly the parentheses
it contains, so a tree whose grouping its text does not show is not what the text reads as. In the text a
binary operator has a space on either side, a unary one stands directly before its operand, and a sign
before a text that begins with the same sign is set off by a space, since `--` and `++` are tokens of C.

Grouping is by precedence. A further operator and operand are attached to the tree read so far on its
right edge: they take over the operands of every operator there that binds more loosely, and the
whole of the rest as their left operand. So an operator of the same level groups to the left.
-/
namespace CExpr

inductive Expr
  | integer (value : Int)
  | double (value : Double)
  | var (name : String)
  | unary (op : UnOp) (operand : Expr)
  | binary (op : BinOp) (lhs rhs : Expr)
  | parens (inner : Expr)
  deriving DecidableEq

namespace Expr

def precedence : Expr → Nat
  | unary .. => UnOp.precedence
  | binary op .. => op.precedence
  | _ => 0

def children : Expr → List Expr
  | unary _ operand => [operand]
  | binary _ lhs rhs => [lhs, rhs]
  | parens inner => [inner]
  | _ => []

def depth : Expr → Nat
  | unary _ operand => operand.depth + 1
  | binary _ lhs rhs => max lhs.depth rhs.depth + 1
  | parens inner => inner.depth + 1
  | _ => 1

def size : Expr → Nat
  | unary _ operand => operand.size + 1
  | binary _ lhs rhs => lhs.size + rhs.size + 1
  | parens inner => inner.size + 1
  | _ => 1

theorem size_children_lt (e : Expr) : (e.children.map size).sum < e.size := by
  cases e <;>
    simp only [children, size, List.map_cons, List.map_nil, List.sum_cons, List.sum_nil] <;> omega

/-- The nodes still to come when the trees on a stack are visited, each node before its children and
the children from left to right. -/
def visit : List Expr → List Expr
  | [] => []
  | node :: pending => node :: visit (node.children ++ pending)
termination_by pending => (pending.map size).sum
decreasing_by
  have := node.size_children_lt
  simp only [List.map_append, List.sum_append, List.map_cons, List.sum_cons]
  omega

def subexpressions (e : Expr) : List Expr := visit [e]

/-- Same shape, same operators and equal leaves. Doubles compare as numbers: the zeros are equal and
`nan` equals nothing. -/
def same : Expr → Expr → Bool
  | integer a, integer b => a == b
  | double a, double b => a.equals b
  | var a, var b => a == b
  | unary p a, unary q b => p == q && a.same b
  | binary p a c, binary q b d => p == q && a.same b && c.same d
  | parens a, parens b => a.same b
  | _, _ => false

def isDouble : Expr → Bool
  | double _ => true
  | _ => false

def isVariable : Expr → Bool
  | var _ => true
  | _ => false

/-! The text of a tree. -/

open Text

def signed (op : UnOp) (operand : List Char) : List Char :=
  if (op = .plus ∨ op = .neg) ∧ operand.head? = some op.symbol then
    op.symbol :: ' ' :: operand
  else op.symbol :: operand

def chars : Expr → List Char
  | integer value => integerChars value
  | double value => value.chars
  | var name => name.toList
  | unary op operand => signed op operand.chars
  | binary op lhs rhs => lhs.chars ++ ' ' :: op.token ++ ' ' :: rhs.chars
  | parens inner => '(' :: inner.chars ++ [')']

def text (e : Expr) : String := String.ofList e.chars

/-! Grouping by precedence. -/

def attach : Expr → BinOp → Expr → Expr
  | binary outer lhs rhs, op, operand =>
    if op.precedence < outer.precedence then binary outer lhs (rhs.attach op operand)
    else binary op (binary outer lhs rhs) operand
  | tree, op, operand => binary op tree operand

def withSigns (signs : List UnOp) (operand : Expr) : Expr :=
  signs.foldl (fun e op => unary op e) operand

/-- Every operator has operands that bind as its place demands: on the left no more loosely than the
operator, on the right and under a sign more tightly. Such a tree is what its own text groups to. -/
def PrecedenceCorrect : Expr → Prop
  | unary _ operand => operand.precedence ≤ UnOp.precedence ∧ operand.PrecedenceCorrect
  | binary op lhs rhs =>
    lhs.precedence ≤ op.precedence ∧ rhs.precedence < op.precedence ∧
      lhs.PrecedenceCorrect ∧ rhs.PrecedenceCorrect
  | parens inner => inner.PrecedenceCorrect
  | _ => True

end Expr
end CExpr
