import CExpr.Proofs.Expr.Lexeme

/-!
Laws of attaching one more operator on the right edge of a tree. The lexemes grow at the end, a tree
that is grouped by precedence stays so, and attaching `a` and then a tighter-bound tail `b` is the
same as attaching the two at once, which is what makes reading from left to right agree with
precedence.
-/
namespace CExpr.Expr

@[simp] theorem lexemes_attach (tree : Expr) (op : BinOp) (operand : Expr) :
    (tree.attach op operand).lexemes =
      tree.lexemes ++ Lexeme.operator op.token :: operand.lexemes := by
  fun_induction attach tree op operand with
  | case1 outer lhs rhs op operand tighter ih => simp [lexemes, ih]
  | case2 outer lhs rhs op operand looser => rfl
  | case3 tree op operand other => rfl

theorem precedence_attach_lt (tree : Expr) (op : BinOp) (operand : Expr) (bound : Nat)
    (old : tree.precedence < bound) (new : op.precedence < bound) :
    (tree.attach op operand).precedence < bound := by
  fun_cases attach tree op operand with
  | case1 outer lhs rhs op operand tighter => exact old
  | case2 outer lhs rhs op operand looser => exact new
  | case3 tree op operand other => exact new

theorem attach_of_le (tree : Expr) (op : BinOp) (operand : Expr)
    (fits : tree.precedence ≤ op.precedence) : tree.attach op operand = binary op tree operand := by
  fun_cases attach tree op operand with
  | case1 outer lhs rhs op operand tighter =>
      have : outer.precedence ≤ op.precedence := fits
      omega
  | case2 outer lhs rhs op operand looser => rfl
  | case3 tree op operand other => rfl

theorem precedence_le_two_or_binary (tree : Expr) :
    tree.precedence ≤ 2 ∨ ∃ op lhs rhs, tree = binary op lhs rhs := by
  cases tree <;> simp [precedence, UnOp.precedence]

theorem attach_precedenceCorrect (tree : Expr) (op : BinOp) (operand : Expr)
    (correct : tree.PrecedenceCorrect) (operandCorrect : operand.PrecedenceCorrect)
    (fits : operand.precedence < op.precedence) :
    (tree.attach op operand).PrecedenceCorrect := by
  fun_induction attach tree op operand with
  | case1 outer lhs rhs op operand tighter ih =>
      obtain ⟨left, right, leftCorrect, rightCorrect⟩ := correct
      exact ⟨left, precedence_attach_lt rhs op operand _ right tighter, leftCorrect,
        ih rightCorrect operandCorrect fits⟩
  | case2 outer lhs rhs op operand looser =>
      exact ⟨Nat.le_of_not_lt looser, fits, correct, operandCorrect⟩
  | case3 tree op operand other =>
      -- No binary tree is left for this case, and all others bind tighter than any operator.
      have flat : tree.precedence ≤ op.precedence := by
        rcases precedence_le_two_or_binary tree with low | ⟨inner, lhs, rhs, same⟩
        · have := op.two_lt_precedence
          omega
        · exact absurd same (other inner lhs rhs)
      exact ⟨flat, fits, correct, operandCorrect⟩

/-- A tail that binds more tightly than the operator before it goes into that operator's operand. -/
theorem attach_attach (tree : Expr) (op inner : BinOp) (lhs rhs : Expr)
    (tighter : inner.precedence < op.precedence) (fits : lhs.precedence ≤ inner.precedence) :
    (tree.attach op lhs).attach inner rhs = tree.attach op (binary inner lhs rhs) := by
  -- At the place where `op` went in, the tail finds `op` looser and goes below it.
  have step : ∀ left, (binary op left lhs).attach inner rhs =
      binary op left (binary inner lhs rhs) := by
    intro left
    rw [attach, if_pos tighter, attach_of_le lhs inner rhs fits]
  induction tree with
  | binary outer left right _ ih =>
      by_cases deeper : op.precedence < outer.precedence
      -- The right edge goes on below `outer`, for the tail as well.
      · have deepest : inner.precedence < outer.precedence := by omega
        simp [attach, deeper, deepest, ih]
      · simpa [attach, deeper] using step (binary outer left right)
  | integer value => exact step _
  | double value => exact step _
  | var name => exact step _
  | unary sign operand _ => exact step _
  | parens body _ => exact step _

end CExpr.Expr
