import CExpr.Proofs.Expr.Substitution
import CExpr.Proofs.Term.Identities

/-!
Laws that tie the operators of expressions together. A law is a pair of trees over two variables that
have the same value for all words. They keep having the same value with any trees without doubles in
the place of the variables, and however many parentheses are put where the grouping allows for them.
-/
namespace CExpr
namespace Expr

/-- The tree with other trees in the place of its variables. An operand gets parentheses where the text
would otherwise group differently. -/
def filled (operand : String → Expr) : Expr → Expr
  | var name => operand name
  | unary op inner => unaryOf op (inner.filled operand)
  | binary op lhs rhs => binaryOf op (lhs.filled operand) (rhs.filled operand)
  | parens inner => parens (inner.filled operand)
  | leaf => leaf

variable {operand : String → Expr} {e : Expr}

theorem withoutParens_filled (operand : String → Expr) (e : Expr) :
    (e.filled operand).withoutParens = (e.substituted operand).withoutParens := by
  induction e with
  | integer value | double value | var name => rfl
  | unary op inner ih => rw [filled, withoutParens_unaryOf, ih, substituted, withoutParens]
  | binary op lhs rhs left right =>
      rw [filled, withoutParens_binaryOf, left, right, substituted, withoutParens]
  | parens inner ih => exact ih

/-- Whatever parentheses a tree is written with, filled with operands that have a value it has the one
that their values give it. -/
theorem reference_filled {tree : Expr} {bindings : Bindings}
    (same : tree.withoutParens = (e.filled operand).withoutParens) (noDouble : e.hasDouble = false)
    (operands : ∀ name ∈ e.names, (operand name).hasDouble = false)
    (covers : ∀ name ∈ e.names, bindings.Covers (operand name).names) :
    tree.reference bindings = .ok (e.value fun name => (operand name).value bindings.word) := by
  have whole : (e.substituted operand).hasDouble = false := by
    rw [hasDouble_eq_false_iff, doubles_substituted, ← hasDouble_eq_false_iff, noDouble]
    exact fun name occurs => hasDouble_eq_false_iff.mp (operands name occurs)
  have bound : bindings.Covers (e.substituted operand).names := by
    intro name occurs
    rw [names_substituted] at occurs
    obtain ⟨place, listed, inside⟩ := List.mem_flatMap.mp occurs
    exact covers place listed name inside
  rw [← reference_withoutParens, same, withoutParens_filled, reference_withoutParens,
    reference_eq_value whole bound, value_substituted]

end Expr

inductive Law
  | division | difference | negation | exclusive | sum | leftShift | rightShift | shiftedOut
  | remainder | atMost | greater | atLeast | lessOrEqual | unequal | conjunction | truth

namespace Law
open CExpr.Expr CExpr.BinOp

def sides (law : Law) : Expr × Expr :=
  let a := var "a"
  let b := var "b"
  let not := unary .logicalNot
  match law with
  | division => (binary plus (binary mult (binary div a b) b) (binary mod a b), a)
  | difference => (binary minus a b, binary plus (binary plus a (unary .bitNot b)) (integer 1))
  | negation => (unary .neg a, binary plus (unary .bitNot a) (integer 1))
  | exclusive => (binary bitXor a b, binary minus (binary bitOr a b) (binary bitAnd a b))
  | sum =>
    (binary plus a b,
      binary plus (binary bitXor a b) (binary mult (integer 2) (binary bitAnd a b)))
  | leftShift => (binary shl a b, binary mult a (binary shl (integer 1) b))
  | rightShift =>
    let inside := binary lt b (integer 64)
    (binary mult inside (binary shr a b),
      binary mult inside (binary div a (binary shl (integer 1) b)))
  | shiftedOut => (binary mult (binary ge b (integer 64)) (binary shr a b), integer 0)
  | remainder =>
    (binary logicalOr (binary eq b (integer 0)) (binary lt (binary mod a b) b), integer 1)
  | atMost => (binary le a b, not (binary lt b a))
  | greater => (binary gt a b, binary lt b a)
  | atLeast => (binary ge a b, not (binary lt a b))
  | lessOrEqual => (binary le a b, binary logicalOr (binary lt a b) (binary eq a b))
  | unequal => (binary ne a b, not (binary eq a b))
  | conjunction => (binary logicalAnd a b, not (binary logicalOr (not a) (not b)))
  | truth => (not (not a), binary ne a (integer 0))

example :
    [division, difference, negation, exclusive, sum, leftShift, rightShift, shiftedOut, remainder,
      atMost, greater, atLeast, lessOrEqual, unequal, conjunction, truth].map
        (fun law => ((law.sides.1.filled var).text, (law.sides.2.filled var).text)) =
    [("a / b * b + a % b", "a"), ("a - b", "a + ~b + 1"), ("-a", "~a + 1"),
      ("a ^ b", "(a | b) - (a & b)"), ("a + b", "(a ^ b) + 2 * (a & b)"),
      ("a << b", "a * (1 << b)"), ("(b < 64) * (a >> b)", "(b < 64) * (a / (1 << b))"),
      ("(b >= 64) * (a >> b)", "0"), ("b == 0 || a % b < b", "1"), ("a <= b", "!(b < a)"),
      ("a > b", "b < a"), ("a >= b", "!(a < b)"), ("a <= b", "a < b || a == b"),
      ("a != b", "!(a == b)"), ("a && b", "!(!a || !b)"), ("!!a", "a != 0")] := by
  decide +kernel

variable (law : Law)

theorem value_sides (env : String → Word) : law.sides.1.value env = law.sides.2.value env := by
  have ofBool_eq {truth other : Bool} (same : truth = other) :
      Word.ofBool truth = Word.ofBool other := congrArg Word.ofBool same
  cases law with
  | division => exact Word.divide_mul_add_remainder _ _
  | difference => exact Word.sub_eq_add_complement _ _
  | negation => exact BitVec.neg_eq_not_add _
  | exclusive => exact Word.xor_eq_or_sub_shared _ _
  | sum => exact Word.add_eq_xor_add_shared _ _
  | leftShift => exact Word.shiftLeft_eq_mul _ _
  | rightShift => exact Word.inside_mul_shiftRight _ _
  | shiftedOut => exact Word.outside_mul_shiftRight _ _
  | remainder =>
      exact (Word.or_ofBool _ _).trans (ofBool_eq (Word.eq_zero_or_remainder_ult _ _))
  | atMost | atLeast => exact (ofBool_eq (BitVec.ule_eq_not_ult _ _)).trans (Word.not_ofBool _).symm
  | greater => rfl
  | lessOrEqual => exact (ofBool_eq (Word.ule_eq_ult_or_eq _ _)).trans (Word.or_ofBool _ _).symm
  | unequal => exact (Word.not_ofBool _).symm
  | conjunction => exact Word.and_eq_not_or_not _ _
  | truth => exact Word.not_ofBool _

theorem side_plain {side : Expr} (listed : side ∈ [law.sides.1, law.sides.2]) :
    side.hasDouble = false := by
  have both : ∀ side ∈ [law.sides.1, law.sides.2], side.hasDouble = false := by
    cases law <;> decide
  exact both side listed

def operand (a b : Expr) (name : String) : Expr := if name = "a" then a else b

theorem operand_eq_or (a b : Expr) (name : String) : operand a b name = a ∨ operand a b name = b :=
  ite_eq_or_eq _ a b

/-- The sides of a law have one value, whatever trees without doubles stand for its variables, if all
variables of these are bound. Parentheses beyond those that the grouping asks for change nothing. -/
theorem reference_sides (a b : Expr) (bindings : Bindings) (noDoubleA : a.hasDouble = false)
    (noDoubleB : b.hasDouble = false) (covers : bindings.Covers (a.names ++ b.names)) :
    ∃ word, ∀ side ∈ [law.sides.1, law.sides.2], ∀ tree : Expr,
      tree.withoutParens = (side.filled (operand a b)).withoutParens →
        tree.reference bindings = .ok word := by
  have ⟨coversA, coversB⟩ := List.forall_mem_append.mp covers
  have whole (name : String) :
      (operand a b name).hasDouble = false ∧ bindings.Covers (operand a b name).names := by
    rcases operand_eq_or a b name with same | same
    · rw [same]
      exact ⟨noDoubleA, coversA⟩
    · rw [same]
      exact ⟨noDoubleB, coversB⟩
  let env (name : String) : Word := (operand a b name).value bindings.word
  have valued {side tree : Expr} (listed : side ∈ [law.sides.1, law.sides.2])
      (same : tree.withoutParens = (side.filled (operand a b)).withoutParens) :
      tree.reference bindings = .ok (side.value env) :=
    reference_filled same (law.side_plain listed) (fun name _ => (whole name).1)
      fun name _ => (whole name).2
  refine ⟨law.sides.1.value env, List.forall_mem_cons.mpr ⟨fun tree => valued List.mem_cons_self, ?_⟩⟩
  refine List.forall_mem_singleton.mpr fun tree same => ?_
  rw [law.value_sides]
  exact valued (List.mem_cons_of_mem _ (List.mem_singleton_self _)) same

/-- `x - y` divided by nothing: the quotient is the largest word, its product with the divisor is zero,
and the remainder is all of the dividend; both operands need parentheses. -/
theorem reference_sides_division :
    let a := binary .minus (var "x") (var "y")
    let b := binary .bitAnd (var "y") (integer 0)
    let bindings : Bindings := [("x", 3), ("y", -1)]
    let tree := division.sides.1.filled (operand a b)
    (a.hasDouble = false ∧ b.hasDouble = false ∧ bindings.Covers (a.names ++ b.names)) ∧
      tree.text = "(x - y) / (y & 0) * (y & 0) + (x - y) % (y & 0)" ∧
      tree.reference bindings = .ok 4 := by
  intro a b bindings tree
  have covers : bindings.Covers (a.names ++ b.names) := by decide
  obtain ⟨word, sides⟩ := division.reference_sides a b bindings rfl rfl covers
  have four : a.reference bindings = .ok 4 := by decide +kernel
  have quotient := sides _ List.mem_cons_self tree rfl
  have dividend := sides _ (List.mem_cons_of_mem _ (List.mem_singleton_self _)) a rfl
  refine ⟨⟨rfl, rfl, covers⟩, by decide +kernel, ?_⟩
  rw [quotient, ← dividend, four]

end Law
end CExpr
