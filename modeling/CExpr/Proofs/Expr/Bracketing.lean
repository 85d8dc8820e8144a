import CExpr.Proofs.Expr.Equivalence
import CExpr.Proofs.Expr.Substitution
import CExpr.Proofs.Expr.Pieces
import CExpr.Proofs.Reader.Grammar

/-!
Parentheses that a tree needs. The lexemes of a tree and the tree without its parentheses fix between
them where the parentheses stand. So a tree that is not grouped by precedence cannot be what its text
reads as, not even up to parentheses: the tree that is read has the same lexemes. And no grouping by
precedence is left when a pair goes that stood around an operand too loose for its place.
-/
namespace CExpr

namespace Lexeme

def isParenthesis : Lexeme → Bool
  | leftParen | rightParen => true
  | _ => false

/-- What stands before the parenthesis that closes the outermost of the open ones, of which there are
`depth` within it. -/
def enclosed : Nat → List Lexeme → List Lexeme
  | _, [] => []
  | depth, leftParen :: rest => leftParen :: enclosed (depth + 1) rest
  | 0, rightParen :: _ => []
  | depth + 1, rightParen :: rest => rightParen :: enclosed depth rest
  | depth, lexeme :: rest => lexeme :: enclosed depth rest

end Lexeme

namespace Expr
open Lexeme

/-! Where the parentheses of a tree stand. -/
section Placement

theorem enclosed_lexemes (e : Expr) (depth : Nat) (rest : List Lexeme) :
    enclosed depth (e.lexemes ++ rest) = e.lexemes ++ enclosed depth rest := by
  induction e generalizing depth rest with
  | integer value | double value | var name => simp [lexemes, enclosed]
  | unary op operand ih => simp [lexemes, enclosed, ih]
  | binary op lhs rhs left right => simp [lexemes, enclosed, left, right]
  | parens inner ih => simp [lexemes, enclosed, ih]

/-- The parenthesis that closes tells where the tree in the parentheses ends. -/
theorem lexemes_eq_of_closed {e f : Expr} {rest other : List Lexeme}
    (same : e.lexemes ++ rightParen :: rest = f.lexemes ++ rightParen :: other) :
    e.lexemes = f.lexemes := by
  have scanned := congrArg (enclosed 0) same
  simpa only [enclosed_lexemes, enclosed, List.append_nil] using scanned

theorem countP_lexemes (e : Expr) :
    e.lexemes.countP (!·.isParenthesis) = e.withoutParens.size := by
  induction e with
  | integer value | double value | var name => rfl
  | unary op operand ih =>
      rw [lexemes, List.countP_cons_of_pos rfl, ih]
      rfl
  | binary op lhs rhs left right =>
      rw [lexemes, List.countP_append, List.countP_cons_of_pos rfl, left, right]
      rfl
  | parens inner ih =>
      rw [lexemes, List.countP_append, List.countP_cons_of_neg Bool.false_ne_true, ih]
      rfl

theorem exists_parens_in_front {e : Expr} {rest other : List Lexeme}
    (opens : e.lexemes ++ rest = leftParen :: other) :
    ∃ (body : Expr) (behind : List Lexeme),
      e.lexemes = leftParen :: body.lexemes ++ rightParen :: behind ∧
        body.withoutParens.size ≤ e.withoutParens.size := by
  induction e generalizing rest with
  | integer value | double value | var name | unary op operand _ => cases opens
  | binary op lhs rhs left _ =>
      rw [lexemes, List.append_assoc] at opens
      obtain ⟨body, behind, front, small⟩ := left opens
      refine ⟨body, behind ++ .operator op.token :: rhs.lexemes, by simp [lexemes, front], ?_⟩
      rw [withoutParens, size]
      omega
  | parens inner _ => exact ⟨inner, [], rfl, Nat.le_refl _⟩

/-- Parentheses around the whole are not mistaken for parentheses around the first operand, which
enclose less. -/
theorem withoutParens_ne_of_lexemes {inner f : Expr} {rest other : List Lexeme}
    (same : (parens inner).lexemes ++ rest = f.lexemes ++ other)
    (bare : ∀ body, f ≠ parens body) : inner.withoutParens ≠ f.withoutParens := by
  intro grouped
  cases f with
  | integer value | double value | var name | unary op operand => cases same
  | parens body => exact bare body rfl
  | binary op lhs rhs =>
      rw [lexemes, lexemes, List.append_assoc, List.append_assoc] at same
      obtain ⟨body, behind, front, small⟩ := exists_parens_in_front same.symm
      rw [front] at same
      have bodies : inner.lexemes = body.lexemes :=
        lexemes_eq_of_closed (by simpa using (List.cons.inj same).2)
      have sizes : inner.withoutParens.size = body.withoutParens.size := by
        rw [← countP_lexemes, ← countP_lexemes, bodies]
      have whole : inner.withoutParens.size = lhs.withoutParens.size + rhs.withoutParens.size + 1 :=
        congrArg size grouped
      omega

theorem eq_of_lexemes_append_eq {e f : Expr} {rest other : List Lexeme}
    (same : e.lexemes ++ rest = f.lexemes ++ other)
    (grouped : e.withoutParens = f.withoutParens) : e = f ∧ rest = other := by
  -- The operands are taken off one after the other, so what is behind the two trees is general.
  induction e generalizing f rest other with
  | integer value | double value | var name =>
      cases f with
      | parens body => cases same
      | integer _ | double _ | var _ => cases grouped <;> exact ⟨rfl, (List.cons.inj same).2⟩
      | unary op operand | binary op lhs rhs => cases grouped
  | unary op operand ih =>
      cases f with
      | unary other operand =>
          obtain ⟨rfl, below⟩ := Expr.unary.inj grouped
          obtain ⟨rfl, behind⟩ := ih (List.cons.inj same).2 below
          exact ⟨rfl, behind⟩
      | parens body => cases same
      | integer value | double value | var name | binary other lhs rhs => cases grouped
  | binary op lhs rhs left right =>
      cases f with
      | binary other first second =>
          obtain ⟨rfl, before, after⟩ := Expr.binary.inj grouped
          rw [lexemes, lexemes, List.append_assoc, List.append_assoc] at same
          obtain ⟨rfl, later⟩ := left same before
          obtain ⟨rfl, behind⟩ := right (List.cons.inj later).2 after
          exact ⟨rfl, behind⟩
      | parens body =>
          have bare : ∀ other, binary op lhs rhs ≠ parens other := by simp
          exact (withoutParens_ne_of_lexemes same.symm bare grouped.symm).elim
      | integer value | double value | var name | unary other operand => cases grouped
  | parens inner ih =>
      by_cases wrapped : ∃ body, f = parens body
      · obtain ⟨body, rfl⟩ := wrapped
        rw [lexemes, lexemes, List.append_assoc, List.append_assoc] at same
        obtain ⟨rfl, behind⟩ := ih (List.cons.inj same).2 grouped
        exact ⟨rfl, (List.cons.inj behind).2⟩
      · exact (withoutParens_ne_of_lexemes same (not_exists.mp wrapped) grouped).elim

theorem eq_of_lexemes_eq {e f : Expr} (same : e.lexemes = f.lexemes)
    (grouped : e.withoutParens = f.withoutParens) : e = f :=
  (eq_of_lexemes_append_eq (congrArg (· ++ []) same) grouped).1

end Placement

/-! Parentheses around operands that are too loose for their place. -/
section Needed

/-- Parentheses stand only around what binds more loosely than its place allows. At a place there is
a loosest level that needs none. -/
def ParensNeeded : Expr → Nat → Prop
  | unary _ operand, _ => operand.ParensNeeded UnOp.precedence
  | binary op lhs rhs, _ =>
    lhs.ParensNeeded op.precedence ∧ rhs.ParensNeeded (op.precedence - 1)
  | parens inner, bound => bound < inner.precedence ∧ inner.ParensNeeded BinOp.loosest
  | _, _ => True

variable {e inner : Expr} {bound : Nat}

theorem parensNeeded_guarded {p : Prop} [Decidable p] (loose : p → bound < e.precedence)
    (needed : ∀ bound, e.ParensNeeded bound) : (if p then parens e else e).ParensNeeded bound := by
  split
  · rename_i guard
    exact ⟨loose guard, needed _⟩
  · exact needed bound

theorem parensNeeded_binaryOf (op : BinOp) {lhs rhs : Expr} (left : ∀ bound, lhs.ParensNeeded bound)
    (right : ∀ bound, rhs.ParensNeeded bound) (bound : Nat) :
    (binaryOf op lhs rhs).ParensNeeded bound := by
  have level := op.two_lt_precedence
  exact ⟨parensNeeded_guarded id left, parensNeeded_guarded (by omega) right⟩

theorem parensNeeded_unaryOf (op : UnOp) {operand : Expr}
    (below : ∀ bound, operand.ParensNeeded bound) (bound : Nat) :
    (unaryOf op operand).ParensNeeded bound :=
  parensNeeded_guarded (p := UnOp.precedence < operand.precedence) id below

namespace Context

theorem binary_of_parensNeeded {context : Context} (signs : UnOp.precedence ≤ bound)
    (needed : (context.fill (.parens inner)).ParensNeeded bound) :
    ∃ op lhs rhs, inner = binary op lhs rhs := by
  induction context generalizing bound with
  | hole =>
      exact inner.precedence_le_two_or_binary.resolve_left
        (Nat.not_le_of_lt (Nat.lt_of_le_of_lt signs needed.1))
  | unary op operand ih => exact ih (Nat.le_refl _) needed
  | left op lhs rhs ih => exact ih (Nat.le_of_lt op.two_lt_precedence) needed.1
  | right op lhs rhs ih => exact ih (Nat.le_sub_one_of_lt op.two_lt_precedence) needed.2
  | parens body ih => exact ih (by decide) needed.2

/-- Without one pair of needed parentheses the tree is too loose for its place, or there is an
operator in it with such an operand. -/
theorem not_precedenceCorrect_of_parensNeeded {context : Context}
    (needed : (context.fill (.parens inner)).ParensNeeded bound) :
    ¬ ((context.fill inner).precedence ≤ bound ∧ (context.fill inner).PrecedenceCorrect) := by
  induction context generalizing bound with
  | hole => exact fun fits => Nat.not_le_of_lt needed.1 fits.1
  | unary op operand ih => exact fun fits => ih needed fits.2
  | left op lhs rhs ih => exact fun fits => ih needed.1 ⟨fits.2.1, fits.2.2.2.1⟩
  | right op lhs rhs ih =>
      exact fun fits => ih needed.2 ⟨Nat.le_sub_one_of_lt fits.2.2.1, fits.2.2.2.2⟩
  | parens body ih => exact fun fits => ih needed.2 ⟨Expr.precedence_le_loosest _, fits.2⟩

theorem everyLeaf_fill {test : Expr → Prop} {context : Context} {a b : Expr}
    (inside : a.EveryLeaf test → b.EveryLeaf test) (all : (context.fill a).EveryLeaf test) :
    (context.fill b).EveryLeaf test := by
  induction context with
  | hole => exact inside all
  | unary op operand ih | parens operand ih => exact ih all
  | left op lhs rhs ih => exact ⟨ih all.1, all.2⟩
  | right op lhs rhs ih => exact ⟨all.1, ih all.2⟩

end Context
end Needed
end Expr
end CExpr
