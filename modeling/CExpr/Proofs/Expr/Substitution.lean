import CExpr.Generator
import CExpr.Proofs.Expr.ReferenceOutcome
import CExpr.Term.Basic

/-!
Trees with other trees in the place of their variables, and trees without their parentheses. What is put
in brings its names along and counts as a variable with its value would. Parentheses say nothing beyond
the grouping, which a tree has of its own: without them it means the same term over the same names, so it
has the same reference value or fails with the same error.
-/
namespace CExpr.Expr

/-- The tree without its parentheses. What stood in them stays together. -/
def withoutParens : Expr → Expr
  | unary op operand => unary op operand.withoutParens
  | binary op lhs rhs => binary op lhs.withoutParens rhs.withoutParens
  | parens inner => inner.withoutParens
  | leaf => leaf

theorem lower_withoutParens (e : Expr) (symbols : SymbolTable) :
    e.withoutParens.lower symbols = e.lower symbols := by
  induction e generalizing symbols with
  | integer value | double value | var name => rfl
  | unary op operand ih => simp only [withoutParens, lower, ih]
  | binary op lhs rhs left right => simp only [withoutParens, lower, left, right]
  | parens inner ih => exact ih symbols

theorem reference_withoutParens (e : Expr) (bindings : Bindings) :
    e.withoutParens.reference bindings = e.reference bindings := by
  simp only [reference, lower_withoutParens]

theorem withoutParens_guarded {p : Prop} [Decidable p] (e : Expr) :
    (if p then parens e else e).withoutParens = e.withoutParens := by
  split <;> rfl

theorem withoutParens_binaryOf (op : BinOp) (lhs rhs : Expr) :
    (binaryOf op lhs rhs).withoutParens = binary op lhs.withoutParens rhs.withoutParens := by
  simp only [binaryOf, withoutParens, withoutParens_guarded]

theorem withoutParens_unaryOf (op : UnOp) (operand : Expr) :
    (unaryOf op operand).withoutParens = unary op operand.withoutParens := by
  simp only [unaryOf, withoutParens, withoutParens_guarded]

variable {operand : String → Expr} {e : Expr}

def substituted (operand : String → Expr) : Expr → Expr
  | var name => operand name
  | unary op inner => unary op (inner.substituted operand)
  | binary op lhs rhs => binary op (lhs.substituted operand) (rhs.substituted operand)
  | parens inner => parens (inner.substituted operand)
  | leaf => leaf

theorem doubles_substituted (operands : ∀ name ∈ e.names, (operand name).doubles = []) :
    (e.substituted operand).doubles = e.doubles := by
  induction e with
  | integer value | double value => rfl
  | var name => exact operands name (List.mem_singleton_self name)
  | unary op inner ih | parens inner ih => exact ih operands
  | binary op lhs rhs left right =>
      have ⟨inLeft, inRight⟩ := List.forall_mem_append.mp operands
      rw [substituted, doubles, doubles, left inLeft, right inRight]

theorem names_substituted (operand : String → Expr) (e : Expr) :
    (e.substituted operand).names = e.names.flatMap fun name => (operand name).names := by
  induction e with
  | integer value | double value => rfl
  | var name => exact (List.flatMap_singleton _ _).symm
  | unary op inner ih | parens inner ih => exact ih
  | binary op lhs rhs left right => rw [substituted, names, names, left, right, List.flatMap_append]

theorem value_substituted (env : String → Word) (operand : String → Expr) (e : Expr) :
    (e.substituted operand).value env = e.value fun name => (operand name).value env := by
  induction e with
  | integer value | double value | var name => rfl
  | unary op inner ih => rw [substituted, value, value, ih]
  | binary op lhs rhs left right => rw [substituted, value, value, left, right]
  | parens inner ih => exact ih

end CExpr.Expr
