import CExpr.Proofs.Polynomial.Ring

/-!
Equations and comparisons between polynomials. Both sides of an equation may be multiplied by a word
that has an inverse, and summands may change sides.
-/
namespace CExpr

theorem BinOp.apply_comm {op : BinOp} (commutes : op.commutes = true) (a b : Word) :
    op.apply a b = op.apply b a := by
  cases op with
  | plus => exact BitVec.add_comm a b
  | mult => exact BitVec.mul_comm a b
  | bitAnd => exact BitVec.and_comm a b
  | bitOr => exact BitVec.or_comm a b
  | bitXor => exact BitVec.xor_comm a b
  | logicalAnd => exact congrArg Word.ofBool (Bool.and_comm _ _)
  | logicalOr => exact congrArg Word.ofBool (Bool.or_comm _ _)
  | eq => exact congrArg Word.ofBool Bool.beq_comm
  | ne => exact congrArg Word.ofBool (congrArg not Bool.beq_comm)
  | _ => cases commutes

namespace Polynomial

variable {env : String → Word} {p q : Polynomial}

@[simp] theorem eval_oriented (op : BinOp) (s t : Term) :
    (oriented op s t).eval env = op.apply (s.eval env) (t.eval env) := by
  unfold oriented
  split
  · rename_i turned
    exact BinOp.apply_comm (Bool.and_eq_true_iff.mp turned).1 _ _
  · rfl

/-- A solution is a multiple by a word with an inverse, so it has the same zeros. -/
theorem eval_of_mem_solutions (member : q ∈ solutions p) : eval env q = 0 ↔ eval env p = 0 := by
  obtain ⟨⟨m, c⟩, _, found⟩ := List.mem_filterMap.mp member
  simp only [Option.ite_none_left_eq_some, Bool.or_eq_true, not_or, ne_eq,
    decide_eq_true_eq, Decidable.not_not, Option.some.injEq] at found
  obtain ⟨⟨_, inverts⟩, rfl⟩ := found
  rw [eval_scale, Monomial.eval_nil]
  constructor <;> intro null <;> grind

theorem lightest_mem (p : Polynomial) (others : List Polynomial) :
    lightest p others = p ∨ lightest p others ∈ others := by
  induction others with
  | nil => exact .inl rfl
  | cons q rest ih =>
      rw [lightest]
      dsimp only
      split
      · exact .inr List.mem_cons_self
      · exact ih.imp_right (List.mem_cons_of_mem q)

theorem eval_lightest_solutions (p : Polynomial) :
    eval env (lightest p (solutions p)) = 0 ↔ eval env p = 0 := by
  rcases lightest_mem p (solutions p) with same | member
  · rw [same]
  · exact eval_of_mem_solutions member

theorem eval_partition (f : Monomial × Word → Bool) (p : Polynomial) :
    eval env (p.partition f).1 + eval env (p.partition f).2 = eval env p := by
  rw [List.partition_eq_filter_filter]
  induction p with
  | nil => rfl
  | cons entry rest ih =>
      obtain ⟨m, c⟩ := entry
      rw [eval_cons, ← ih]
      cases chosen : f (m, c) with
      | true =>
          simp only [List.filter_cons, Function.comp_apply, chosen, Bool.not_true, if_true,
            Bool.false_eq_true, if_false, eval_cons]
          grind
      | false =>
          simp only [List.filter_cons, Function.comp_apply, chosen, Bool.not_false, if_true,
            Bool.false_eq_true, if_false, eval_cons]
          grind

/-- The two sides of an equation are equal exactly if the polynomials are. -/
theorem eval_equation (p q : Polynomial) :
    eval env (equation p q).1 = eval env (equation p q).2 ↔ eval env p = eval env q := by
  let solved := lightest (p.sub q) (solutions (p.sub q))
  let sides := solved.partition fun entry => entry.1.isEmpty
  let signs := sides.2.partition fun entry => (-entry.2).ult entry.2
  have whole : eval env sides.1 + eval env sides.2 = eval env solved := eval_partition _ _
  have others : eval env signs.1 + eval env signs.2 = eval env sides.2 := eval_partition _ _
  have zero : eval env solved = 0 ↔ eval env p - eval env q = 0 := by
    rw [← eval_sub]
    exact eval_lightest_solutions _
  have split : equation p q = (signs.2, neg (signs.1 ++ sides.1)) := rfl
  rw [split, eval_neg, eval_append]
  grind

theorem eval_complement (p : Polynomial) : eval env (complement p) = 1 - eval env p := by
  rw [complement, eval_sub, eval_constant]

theorem eval_isZero (p : Polynomial) :
    eval env (isZero p) = Word.ofBool (eval env p == 0) := by
  unfold isZero
  split
  · rename_i t
    split
    · rename_i truth
      obtain ⟨value, same⟩ := Term.eval_of_isTruth env truth
      rw [eval_complement]
      simp only [eval_cons, Monomial.eval_cons, Monomial.eval_nil, eval_nil, same]
      cases value <;> rfl
    · rw [eval_single]
      simp [Term.eval, UnOp.apply]
  · rw [eval_single]
    simp [Term.eval, UnOp.apply]

theorem eval_equal (p q : Polynomial) :
    eval env (equal p q) = Word.ofBool (eval env p == eval env q) := by
  have sides := @eval_equation env p q
  have same : (eval env (equation p q).1 == eval env (equation p q).2) =
      (eval env p == eval env q) := Bool.eq_iff_iff.mpr (by simpa using sides)
  rw [← same]
  unfold equal
  split
  · rename_i r split
    rw [split]
    split
    · rename_i c found
      rw [eval_constant, eval_of_constant? env found, Bool.beq_comm, eval_nil]
    · rw [eval_isZero, Bool.beq_comm, eval_nil]
  · rename_i l _ split
    rw [split, eval_isZero, eval_nil]
  · rename_i l r _ _ split
    rw [split, eval_single, eval_oriented, eval_toTerm, eval_toTerm]
    rfl

theorem eval_less (p q : Polynomial) :
    eval env (less p q) = Word.ofBool ((eval env p).ult (eval env q)) := by
  unfold less
  split
  · rename_i c d left right
    rw [eval_constant, eval_of_constant? env left, eval_of_constant? env right]
  · rename_i d right _
    rw [eval_of_constant? env right]
    split
    · rename_i null
      rw [null]
      simp [Word.ofBool, BitVec.ult]
    · rw [eval_single]
      simp [Term.eval, BinOp.apply]
  · split
    · rename_i same
      rw [same]
      simp [Word.ofBool, BitVec.ult]
    · rw [eval_single]
      simp [Term.eval, BinOp.apply]

end Polynomial
end CExpr
