import CExpr.Expr.Basic

/-!
Properties of all nodes of a tree. They can be told node by node along the tree, or over the list in
which a visit finds the nodes. The visit keeps a stack of trees, and it finds what the recursion over
each of them finds, so all else about it is told by recursion.
-/
namespace CExpr.Expr

def preorder : Expr → List Expr
  | unary op operand => unary op operand :: operand.preorder
  | binary op lhs rhs => binary op lhs rhs :: (lhs.preorder ++ rhs.preorder)
  | parens inner => parens inner :: inner.preorder
  | leaf => [leaf]

theorem preorder_eq (e : Expr) : e.preorder = e :: e.children.flatMap preorder := by
  cases e <;> simp [preorder, children]

/-- The trees on the stack are visited one after the other. -/
theorem visit_eq (pending : List Expr) : visit pending = pending.flatMap preorder := by
  fun_induction visit pending with
  | case1 => rfl
  | case2 node pending ih =>
      rw [ih, List.flatMap_append, List.flatMap_cons, preorder_eq node, List.cons_append]

theorem subexpressions_eq (e : Expr) : e.subexpressions = e.preorder := by
  rw [subexpressions, visit_eq, List.flatMap_singleton]

def EveryNode (test : Expr → Prop) : Expr → Prop
  | unary op operand => test (unary op operand) ∧ operand.EveryNode test
  | binary op lhs rhs => test (binary op lhs rhs) ∧ lhs.EveryNode test ∧ rhs.EveryNode test
  | parens inner => test (parens inner) ∧ inner.EveryNode test
  | leaf => test leaf

variable {test : Expr → Prop}

theorem everyNode_iff (e : Expr) : e.EveryNode test ↔ ∀ node ∈ e.subexpressions, test node := by
  rw [subexpressions_eq]
  induction e with
  | integer value | double value | var name => simp [EveryNode, preorder]
  | unary op operand ih | parens operand ih => rw [EveryNode, preorder, List.forall_mem_cons, ih]
  | binary op lhs rhs left right =>
      rw [EveryNode, preorder, List.forall_mem_cons, List.forall_mem_append, left, right]

theorem everyNode_guarded {p : Prop} [Decidable p] {e : Expr} (all : e.EveryNode test)
    (around : p → test (parens e)) : (if p then parens e else e).EveryNode test := by
  split
  · exact ⟨around ‹p›, all⟩
  · exact all

def isParens : Expr → Bool
  | parens _ => true
  | _ => false

theorem precedence_of_isParens {e : Expr} (inside : e.isParens = true) : e.precedence = 0 := by
  cases e with
  | parens inner => rfl
  | integer | double | var | unary | binary => cases inside

theorem of_guarded_eq_parens {p : Prop} [Decidable p] {e inner : Expr} (bare : e.isParens = false)
    (same : (if p then parens e else e) = parens inner) : p ∧ e = inner := by
  split at same
  · cases same
    exact ⟨‹p›, rfl⟩
  · rw [same] at bare
    cases bare

end CExpr.Expr
