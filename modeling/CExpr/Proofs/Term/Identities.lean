import CExpr.Proofs.Term.Word

/-!
Laws that tie the operators on words together. Sums, differences and bitwise operators meet in the bits
that two words share and in those that one of them has alone; quotients, remainders and shifts meet in
the powers of two; and every comparison comes down to one, the unsigned less-than. Divisors may be zero
and amounts may shift everything out.
-/
namespace CExpr.Word

variable {x y z : Word} (a b : Word)

theorem divide_mul_add_remainder : a.divide b * b + a.remainder b = a := by
  rw [remainder_eq]
  grind

theorem sub_eq_add_complement : a - b = a + ~~~b + 1 := by
  have negated : -b = ~~~b + 1 := BitVec.neg_eq_not_add b
  rw [BitVec.sub_eq_add_neg, negated, BitVec.add_assoc]

/-- Without a common bit there is nothing to carry. -/
theorem add_eq_of_bits
    (bits : ∀ i (inside : i < 64), (x[i] && y[i]) = false ∧ (x[i] || y[i]) = z[i]) : x + y = z := by
  have apart : x &&& y = 0 := BitVec.eq_of_getElem_eq fun i inside => by
    rw [BitVec.getElem_and, (bits i inside).1]
    exact (BitVec.getElem_zero inside).symm
  rw [BitVec.add_eq_or_of_and_eq_zero x y apart]
  exact BitVec.eq_of_getElem_eq fun i inside => by rw [BitVec.getElem_or, (bits i inside).2]

theorem alone_add_shared : (a &&& ~~~b) + (a &&& b) = a := by
  refine add_eq_of_bits fun i inside => ?_
  simp only [BitVec.getElem_and, BitVec.getElem_not]
  cases a[i] <;> cases b[i] <;> decide

theorem alone_add_alone : (a &&& ~~~b) + (b &&& ~~~a) = a ^^^ b := by
  refine add_eq_of_bits fun i inside => ?_
  simp only [BitVec.getElem_and, BitVec.getElem_not, BitVec.getElem_xor]
  cases a[i] <;> cases b[i] <;> decide

theorem xor_add_shared : (a ^^^ b) + (a &&& b) = a ||| b := by
  refine add_eq_of_bits fun i inside => ?_
  simp only [BitVec.getElem_and, BitVec.getElem_or, BitVec.getElem_xor]
  cases a[i] <;> cases b[i] <;> decide

theorem xor_eq_or_sub_shared : a ^^^ b = (a ||| b) - (a &&& b) := by
  rw [← xor_add_shared]
  exact (BitVec.add_sub_cancel _ _).symm

theorem add_eq_xor_add_shared : a + b = (a ^^^ b) + 2 * (a &&& b) := by
  calc a + b
    _ = ((a &&& ~~~b) + (a &&& b)) + ((b &&& ~~~a) + (b &&& a)) := by
      rw [alone_add_shared, alone_add_shared]
    _ = ((a &&& ~~~b) + (b &&& ~~~a)) + 2 * (a &&& b) := by rw [BitVec.and_comm b a]; grind
    _ = (a ^^^ b) + 2 * (a &&& b) := by rw [alone_add_alone]

/-- As long as the amount does not shift everything out, a shift to the right is a quotient. -/
theorem inside_mul_shiftRight :
    ofBool (b.ult 64) * a.shiftRight b =
      ofBool (b.ult 64) * a.divide ((1 : Word).shiftLeft b) := by
  rw [divide_one_shiftLeft]
  cases b.ult 64 with
  | false => exact (BitVec.zero_mul).trans (BitVec.zero_mul).symm
  | true => exact congrArg _ (BitVec.sub_zero _).symm

theorem outside_mul_shiftRight : ofBool ((64 : Word).ule b) * a.shiftRight b = 0 := by
  by_cases large : 64 ≤ b.toNat
  · rw [shiftRight_of_le large]
    exact BitVec.mul_zero
  · have inside : (64 : Word).ule b = false := decide_eq_false large
    rw [inside]
    exact BitVec.zero_mul

theorem eq_zero_or_remainder_ult : (b == 0 || (a.remainder b).ult b) = true := by
  by_cases zero : b = 0
  · rw [zero]
    rfl
  · have less : (a.remainder b).ult b = true := by
      rw [BitVec.ult, toNat_remainder, decide_eq_true_eq]
      exact Nat.mod_lt _ (toNat_pos zero)
    rw [less, Bool.or_true]

theorem ule_eq_ult_or_eq : a.ule b = (a.ult b || a == b) := by
  rw [beq_eq_decide, BitVec.ule, BitVec.ult, ← Bool.decide_or]
  exact decide_eq_decide.mpr Nat.le_iff_lt_or_eq

/-! Truth values stay truth values: what is done to them as words is done to them as truths. -/

theorem not_ofBool (truth : Bool) : ofBool (ofBool truth == 0) = ofBool !truth := by
  cases truth <;> rfl

theorem or_ofBool (truth other : Bool) :
    ofBool (ofBool truth != 0 || ofBool other != 0) = ofBool (truth || other) := by
  cases truth <;> cases other <;> rfl

theorem and_eq_not_or_not :
    ofBool (a != 0 && b != 0) = ofBool (ofBool (ofBool (a == 0) != 0 || ofBool (b == 0) != 0) == 0) := by
  rw [or_ofBool, not_ofBool, Bool.not_or]
  rfl

end CExpr.Word
