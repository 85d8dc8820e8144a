import CExpr.Proofs.Term.Assumption
import CExpr.Term.Fact

/-!
Facts hold whatever the operands are: no values of the variables make one zero.
-/
namespace CExpr

namespace Word

variable {a b : Word}

theorem mul_eq_zero_of_odd (odd : a.toNat % 2 = 1) : a * b = 0 ↔ b = 0 := by
  constructor
  · intro null
    have divides : 2 ^ 64 ∣ a.toNat * b.toNat := by
      apply Nat.dvd_of_mod_eq_zero
      rw [← BitVec.toNat_mul, null]
      rfl
    have coprime : Nat.Coprime 2 a.toNat := by
      rw [Nat.coprime_iff_gcd_eq_one, Nat.gcd_rec, odd]
      rfl
    have whole := (coprime.pow_left 64).dvd_of_dvd_mul_left divides
    exact BitVec.eq_of_toNat_eq (Nat.eq_zero_of_dvd_of_lt whole b.isLt)
  · rintro rfl
    exact BitVec.mul_zero

theorem one_and_of_even (even : a.toNat % 2 ≠ 1) : 1 &&& a = 0 := by
  apply BitVec.eq_of_toNat_eq
  rw [BitVec.toNat_and, Nat.and_comm]
  exact (Nat.and_one_is_mod _).trans ((Nat.mod_two_eq_zero_or_one _).resolve_right even)

theorem divide_eq_zero_iff (nonzero : b ≠ 0) : a.divide b = 0 ↔ a.toNat < b.toNat := by
  rw [← BitVec.toNat_inj, toNat_divide a nonzero]
  exact Nat.div_eq_zero_iff_lt (toNat_pos nonzero)

end Word

namespace Term

variable {env : String → Word}

theorem isMet_not_iff {t : Term} : (unary .logicalNot t).isMet env = true ↔ t.eval env = 0 := by
  rw [isMet_of_truth rfl, beq_iff_eq]

theorem isMet_eq_iff {s t : Term} : (binary .eq s t).isMet env = true ↔ s.eval env = t.eval env := by
  rw [isMet_of_truth rfl, beq_iff_eq]

theorem isMet_lt_iff {s t : Term} :
    (binary .lt s t).isMet env = true ↔ (s.eval env).toNat < (t.eval env).toNat := by
  rw [isMet_of_truth rfl]
  exact decide_eq_true_iff

theorem isMet_le_iff {s t : Term} :
    (binary .le s t).isMet env = true ↔ (s.eval env).toNat ≤ (t.eval env).toNat := by
  rw [isMet_of_truth rfl]
  exact decide_eq_true_iff

theorem isMet_all {terms : List Term} :
    (all terms).isMet env = true ↔ ∀ t ∈ terms, t.isMet env = true := by
  induction terms with
  | nil => exact iff_of_true rfl (List.forall_mem_nil _)
  | cons t rest ih =>
      have step : all (t :: rest) = binary .logicalAnd t (all rest) := rfl
      rw [step, isMet_logicalAnd, Bool.and_eq_true, ih, List.forall_mem_cons]

/-- By zero the quotient is the largest word and the dividend remains. By any other divisor the
quotient covers so much of the dividend that less than the divisor remains. -/
theorem isMet_divisionFact (dividend divisor : Term) :
    (divisionFact dividend divisor).isMet env = true := by
  let a := dividend.eval env
  let b := divisor.eval env
  rw [divisionFact, isMet_logicalOr, Bool.or_eq_true, isMet_all, isMet_all]
  by_cases zero : b = 0
  · have quotient : a.divide b = -1 := by rw [zero, Word.divide_zero]
    have remainder : a - a.divide b * b = a := by
      rw [zero]
      simp
    refine .inl ?_
    simp only [List.forall_mem_cons, List.not_mem_nil, false_implies, implies_true, and_true]
    exact ⟨isMet_not_iff.mpr zero, isMet_eq_iff.mpr quotient, isMet_eq_iff.mpr remainder⟩
  · have quotient := Word.toNat_divide a zero
    have product := Word.toNat_divide_mul a zero
    have remainder := Word.toNat_sub_divide_mul a zero
    have largest := Word.toNat_divide (-1) zero
    have positive := Word.toNat_pos zero
    have small : (a - a.divide b * b).toNat < b.toNat := remainder ▸ Nat.mod_lt _ positive
    have remains : (a - a.divide b * b).toNat ≤ a.toNat := remainder ▸ Nat.mod_le _ _
    have less : (a.divide b).toNat ≤ a.toNat := quotient ▸ Nat.div_le_self _ _
    have bounded : (a.divide b).toNat ≤ (Word.divide (-1) b).toNat := by
      rw [quotient, largest]
      exact Nat.div_le_div_right (Nat.le_pred_of_lt a.isLt)
    have covers : (a.divide b).toNat ≤ (a.divide b * b).toNat := by
      rw [product, quotient]
      exact Nat.le_mul_of_pos_right _ positive
    have null : (a.divide b == 0) = a.ult b := by
      rw [Bool.eq_iff_iff, beq_iff_eq, Word.divide_eq_zero_iff zero]
      exact decide_eq_true_iff.symm
    have either : a.divide b = 0 ∨ b.toNat ≤ (a.divide b * b).toNat := by
      by_cases short : a.toNat < b.toNat
      · exact .inl ((Word.divide_eq_zero_iff zero).mpr short)
      · rw [product]
        exact .inr (Nat.le_mul_of_pos_left _ (Nat.div_pos (Nat.le_of_not_lt short) positive))
    refine .inr ?_
    simp only [List.forall_mem_cons, List.not_mem_nil, false_implies, implies_true, and_true,
      isMet_logicalOr, Bool.or_eq_true]
    exact ⟨isMet_lt_iff.mpr small, isMet_le_iff.mpr remains, isMet_le_iff.mpr less,
      isMet_le_iff.mpr bounded, isMet_le_iff.mpr covers,
      isMet_eq_iff.mpr (congrArg Word.ofBool null), either.imp isMet_not_iff.mpr isMet_le_iff.mpr⟩

theorem isMet_productFact (lhs rhs : Term) : (productFact lhs rhs).isMet env = true := by
  let a := lhs.eval env
  let b := rhs.eval env
  have zero : a * b = 0 ∨ a ≠ 0 ∧ b ≠ 0 := by
    by_cases left : a = 0
    · exact .inl (by rw [left]; exact BitVec.zero_mul)
    · by_cases right : b = 0
      · exact .inl (by rw [right]; exact BitVec.mul_zero)
      · exact .inr ⟨left, right⟩
  have odd : 1 &&& a = 0 ∨ (a * b == 0) = (b == 0) := by
    by_cases odd : a.toNat % 2 = 1
    · exact .inr (by rw [Bool.eq_iff_iff, beq_iff_eq, beq_iff_eq, Word.mul_eq_zero_of_odd odd])
    · exact .inl (Word.one_and_of_even odd)
  rw [productFact, isMet_logicalAnd, isMet_logicalOr, isMet_logicalOr, isMet_logicalAnd]
  simp only [Bool.and_eq_true, Bool.or_eq_true]
  constructor
  · exact zero.symm.imp (fun both => ⟨isMet_iff.mpr both.1, isMet_iff.mpr both.2⟩) isMet_not_iff.mpr
  · exact odd.imp isMet_not_iff.mpr fun same => isMet_eq_iff.mpr (congrArg Word.ofBool same)

theorem isMet_of_mem_facts {term fact : Term} (member : fact ∈ term.facts) :
    fact.isMet env = true := by
  have normal : ∀ t : Term, t.isMet env = true → t.normal.isMet env = true := by
    intro t holds
    rw [isMet, eval_normal]
    exact holds
  induction term with
  | word value => cases member
  | symbol name => cases member
  | unary op operand ih => exact ih member
  | binary op lhs rhs left right =>
      rw [facts, List.mem_eraseDups, List.mem_append, List.mem_append] at member
      rcases member with (own | inLeft) | inRight
      · split at own
        · cases own
        · split at own
          · rw [List.mem_singleton.mp own]
            exact normal _ (isMet_divisionFact lhs rhs)
          · rw [List.mem_singleton.mp own]
            exact normal _ (isMet_productFact lhs rhs)
      · exact left inLeft
      · exact right inRight

end Term
end CExpr
