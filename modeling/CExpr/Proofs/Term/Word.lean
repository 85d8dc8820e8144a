import CExpr.Builtin
import CExpr.Term.Basic

/-!
Laws of words: shifts are products and quotients with powers of two, whatever the amount, the
remainder is what the quotient leaves, and truth values are zero or one.
-/
namespace CExpr

namespace Word

variable {a b c : Word}

theorem toNat_ofBool (truth : Bool) : (ofBool truth).toNat = truth.toNat := by
  cases truth <;> rfl

theorem ofBool_mul_self (truth : Bool) : ofBool truth * ofBool truth = ofBool truth := by
  cases truth <;> rfl

theorem one_sub_ofBool (truth : Bool) : 1 - ofBool truth = ofBool !truth := by
  cases truth <;> rfl

protected theorem mul_one (a : Word) : a * 1 = a := BitVec.mul_one a

theorem toNat_pos (nonzero : a ≠ 0) : 0 < a.toNat :=
  Nat.pos_of_ne_zero fun null => nonzero (BitVec.eq_of_toNat_eq null)

theorem toNat_twoPow {k : Nat} (small : k < 64) : (BitVec.twoPow 64 k).toNat = 2 ^ k := by
  rw [BitVec.toNat_twoPow]
  exact Nat.mod_eq_of_lt (Nat.pow_lt_pow_right Nat.one_lt_two small)

theorem twoPow_ne_zero {k : Nat} (small : k < 64) : BitVec.twoPow 64 k ≠ 0 := by
  intro null
  have power := toNat_twoPow small
  rw [null] at power
  exact Nat.ne_of_lt (Nat.two_pow_pos _) power

theorem getLsbD_or_twoPow (a : Word) {k : Nat} (small : k < 64) (i : Nat) :
    (a ||| BitVec.twoPow 64 k).getLsbD i = true ↔ a.getLsbD i = true ∨ k = i := by
  rw [BitVec.getLsbD_or, BitVec.getLsbD_twoPow, decide_eq_true small]
  simp

theorem toNat_sub_one (nonzero : a ≠ 0) : (a - 1).toNat = a.toNat - 1 :=
  BitVec.toNat_sub_of_le (BitVec.le_def.mpr (toNat_pos nonzero))

theorem toNat_and_mask (a : Word) {count : Nat} (small : count ≤ 64) :
    (BitVec.ofNat 64 (2 ^ count - 1) &&& a).toNat = a.toNat % 2 ^ count := by
  have bound : 2 ^ count - 1 < 2 ^ 64 :=
    Nat.lt_of_lt_of_le (Nat.sub_lt (Nat.two_pow_pos _) Nat.one_pos)
      (Nat.pow_le_pow_right Nat.two_pos small)
  rw [BitVec.toNat_and, BitVec.toNat_ofNat, Nat.mod_eq_of_lt bound, Nat.and_comm,
    Nat.and_two_pow_sub_one_eq_mod]

theorem toNat_shiftRight (a b : Word) : (a.shiftRight b).toNat = a.toNat / 2 ^ b.toNat := by
  unfold shiftRight
  split
  · rw [BitVec.toNat_ushiftRight, Nat.shiftRight_eq_div_pow]
  · rename_i large
    have bound : a.toNat < 2 ^ b.toNat :=
      Nat.lt_of_lt_of_le a.isLt (Nat.pow_le_pow_right Nat.two_pos (Nat.le_of_not_lt large))
    rw [Nat.div_eq_of_lt bound]
    rfl

theorem toNat_shiftLeft (a b : Word) :
    (a.shiftLeft b).toNat = a.toNat * 2 ^ b.toNat % 2 ^ 64 := by
  unfold shiftLeft
  split
  · rw [BitVec.toNat_shiftLeft, Nat.shiftLeft_eq]
  · rename_i large
    have whole : 2 ^ 64 ∣ a.toNat * 2 ^ b.toNat :=
      Nat.dvd_mul_left_of_dvd (Nat.pow_dvd_pow 2 (Nat.le_of_not_lt large)) _
    rw [Nat.mod_eq_zero_of_dvd whole]
    rfl

theorem shiftLeft_eq_mul (a b : Word) : a.shiftLeft b = a * (1 : Word).shiftLeft b := by
  apply BitVec.eq_of_toNat_eq
  rw [BitVec.toNat_mul, toNat_shiftLeft, toNat_shiftLeft]
  simp [Nat.mul_mod]

theorem zero_shiftRight (b : Word) : (0 : Word).shiftRight b = 0 := by
  apply BitVec.eq_of_toNat_eq
  rw [toNat_shiftRight]
  exact Nat.zero_div _

theorem shiftRight_of_le (large : 64 ≤ b.toNat) : a.shiftRight b = 0 :=
  if_neg (Nat.not_lt_of_ge large)

theorem shiftRight_shiftRight_comm (a b c : Word) :
    (a.shiftRight b).shiftRight c = (a.shiftRight c).shiftRight b := by
  apply BitVec.eq_of_toNat_eq
  simp only [toNat_shiftRight, Nat.div_div_eq_div_mul]
  rw [Nat.mul_comm]

theorem beq_eq_decide (a b : Word) : (a == b) = decide (a.toNat = b.toNat) := by
  rw [Bool.eq_iff_iff, beq_iff_eq, decide_eq_true_eq, BitVec.toNat_eq]

theorem xor_beq_zero (a b : Word) : (a ^^^ b == 0) = (a == b) := by
  rw [Bool.eq_iff_iff, beq_iff_eq, beq_iff_eq]
  exact BitVec.xor_eq_zero_iff

theorem setWidth_sub (a b : Word) {width : Nat} (enough : width ≤ 64) :
    (a - b).setWidth width = a.setWidth width - b.setWidth width := by
  rw [BitVec.sub_eq_add_neg, BitVec.sub_eq_add_neg, BitVec.setWidth_add _ _ enough,
    BitVec.setWidth_neg_of_le enough]

theorem divide_zero (a : Word) : a.divide 0 = -1 := rfl

theorem toNat_divide (a : Word) (nonzero : b ≠ 0) : (a.divide b).toNat = a.toNat / b.toNat := by
  rw [divide, if_neg nonzero, BitVec.toNat_udiv]

theorem toNat_divide_mul (a : Word) (nonzero : b ≠ 0) :
    (a.divide b * b).toNat = a.toNat / b.toNat * b.toNat := by
  rw [BitVec.toNat_mul, toNat_divide a nonzero]
  exact Nat.mod_eq_of_lt (Nat.lt_of_le_of_lt (Nat.div_mul_le_self _ _) a.isLt)

theorem toNat_sub_divide_mul (a : Word) (nonzero : b ≠ 0) :
    (a - a.divide b * b).toNat = a.toNat % b.toNat := by
  have covered := toNat_divide_mul a nonzero
  have part : (a.divide b * b).toNat ≤ a.toNat := covered ▸ Nat.div_mul_le_self _ _
  rw [BitVec.toNat_sub_of_le part, covered, Nat.mod_eq_sub_div_mul]

theorem toNat_ofNat_mul {n : Nat} (small : n * a.toNat < 2 ^ 64) :
    (BitVec.ofNat 64 n * a).toNat = n * a.toNat := by
  rw [BitVec.toNat_mul, BitVec.toNat_ofNat, Nat.mod_mul_mod, Nat.mod_eq_of_lt small]

theorem toNat_remainder (a b : Word) : (a.remainder b).toNat = a.toNat % b.toNat := by
  unfold remainder
  split
  · rename_i null
    rw [null]
    exact (Nat.mod_zero _).symm
  · exact BitVec.toNat_umod

theorem remainder_eq (a b : Word) : a.remainder b = a - a.divide b * b := by
  by_cases null : b = 0
  · rw [null, remainder, if_pos rfl]
    simp
  · apply BitVec.eq_of_toNat_eq
    rw [toNat_sub_divide_mul a null, toNat_remainder]

theorem divide_self (a : Word) : a.divide a = 1 - 2 * ofBool (a == 0) := by
  by_cases null : a = 0
  · rw [null]
    rfl
  · have distinct : (a == 0) = false := beq_eq_false_iff_ne.mpr null
    apply BitVec.eq_of_toNat_eq
    rw [toNat_divide a null, Nat.div_self (toNat_pos null), distinct]
    rfl

/-- One that is shifted out of sight is zero, and the quotient by it the largest word. -/
theorem divide_one_shiftLeft (a b : Word) :
    a.divide ((1 : Word).shiftLeft b) = a.shiftRight b - ofBool (ofBool (b.ult 64) == 0) := by
  by_cases small : b.toNat < 64
  · have inside : b.ult 64 = true := decide_eq_true small
    have power : ((1 : Word).shiftLeft b).toNat = 2 ^ b.toNat := by
      have one : (1 : Word).toNat = 1 := rfl
      rw [toNat_shiftLeft, one, Nat.one_mul]
      exact Nat.mod_eq_of_lt (Nat.pow_lt_pow_right Nat.one_lt_two small)
    have nonzero : (1 : Word).shiftLeft b ≠ 0 := by
      intro null
      rw [null] at power
      exact Nat.ne_of_lt (Nat.two_pow_pos _) power
    apply BitVec.eq_of_toNat_eq
    have nothing : a.shiftRight b - ofBool (ofBool (b.ult 64) == 0) = a.shiftRight b := by
      rw [inside]
      exact BitVec.sub_zero _
    rw [nothing, toNat_divide a nonzero, toNat_shiftRight, power]
  · have outside : b.ult 64 = false := decide_eq_false small
    have zero : (1 : Word).shiftLeft b = 0 := if_neg small
    rw [zero, divide_zero, outside, shiftRight_of_le (Nat.le_of_not_lt small)]
    rfl

theorem remainder_twoPow (a : Word) {k : Nat} (small : k < 64) :
    a.remainder (BitVec.twoPow 64 k) = a &&& (BitVec.twoPow 64 k - 1) := by
  have nonzero := twoPow_ne_zero small
  apply BitVec.eq_of_toNat_eq
  rw [remainder_eq, toNat_sub_divide_mul a nonzero, toNat_twoPow small, BitVec.toNat_and,
    toNat_sub_one nonzero, toNat_twoPow small, Nat.and_two_pow_sub_one_eq_mod]

end Word

namespace Term

variable {t : Term}

theorem eval_of_isTruth (env : String → Word) (truth : t.isTruth = true) :
    ∃ value, t.eval env = Word.ofBool value := by
  cases t with
  | word value => cases truth
  | symbol name => cases truth
  | unary op operand => cases op <;> first | exact ⟨_, rfl⟩ | cases truth
  | binary op lhs rhs => cases op <;> first | exact ⟨_, rfl⟩ | cases truth

end Term
end CExpr
