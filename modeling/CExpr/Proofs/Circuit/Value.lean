import CExpr.Circuit.Bits
import CExpr.Proofs.Circuit.Gate

/-!
The number that a word of signals stands for, the lowest bit first, and what the moves of its bits
make of it.
-/
namespace CExpr

open Signal

namespace Bits

variable {inputs : Nat → Bool}

def value (inputs : Nat → Bool) : Bits → Nat
  | [] => 0
  | a :: as => (a.eval inputs).toNat + 2 * value inputs as

@[simp] theorem value_nil : value inputs [] = 0 := rfl

@[simp] theorem value_cons (a : Signal) (as : Bits) :
    value inputs (a :: as) = (a.eval inputs).toNat + 2 * value inputs as := rfl

theorem value_lt (a : Bits) : value inputs a < 2 ^ a.length := by
  induction a with
  | nil => exact Nat.one_pos
  | cons a as ih =>
      rw [value_cons, List.length_cons, Nat.pow_succ]
      have := Bool.toNat_lt (a.eval inputs)
      omega

theorem value_append (a b : Bits) :
    value inputs (a ++ b) = value inputs a + 2 ^ a.length * value inputs b := by
  induction a with
  | nil => rw [List.nil_append, value_nil, List.length_nil, Nat.pow_zero]; omega
  | cons a as ih =>
      rw [List.cons_append, value_cons, value_cons, ih, List.length_cons, Nat.pow_succ]
      have := Nat.mul_right_comm (2 ^ as.length) 2 (value inputs b)
      omega

@[simp] theorem value_zeros (width : Nat) : value inputs (zeros width) = 0 := by
  induction width with
  | zero => rfl
  | succ width ih =>
      have step : zeros (width + 1) = fixed false :: zeros width := rfl
      rw [step, value_cons, ih]
      rfl

@[simp] theorem length_zeros (width : Nat) : (zeros width).length = width :=
  List.length_replicate

theorem value_take_drop (a : Bits) (count : Nat) :
    value inputs (a.take count) = value inputs a % 2 ^ count ∧
      value inputs (a.drop count) = value inputs a / 2 ^ count := by
  by_cases short : a.length ≤ count
  · have small := Nat.lt_of_lt_of_le (@value_lt inputs a)
      (Nat.pow_le_pow_right Nat.two_pos short)
    rw [List.take_of_length_le short, List.drop_eq_nil_of_le short, Nat.mod_eq_of_lt small,
      Nat.div_eq_of_lt small]
    exact ⟨rfl, rfl⟩
  · have length : (a.take count).length = count :=
      List.length_take_of_le (Nat.le_of_not_le short)
    have low := @value_lt inputs (a.take count)
    have whole := @value_append inputs (a.take count) (a.drop count)
    rw [List.take_append_drop, length] at whole
    rw [length] at low
    rw [whole, Nat.add_mul_mod_self_left, Nat.mod_eq_of_lt low,
      Nat.add_mul_div_left _ _ (Nat.two_pow_pos _),
      Nat.div_eq_of_lt low, Nat.zero_add]
    exact ⟨rfl, rfl⟩

theorem value_take (a : Bits) (count : Nat) :
    value inputs (a.take count) = value inputs a % 2 ^ count := (value_take_drop a count).1

theorem value_drop (a : Bits) (count : Nat) :
    value inputs (a.drop count) = value inputs a / 2 ^ count := (value_take_drop a count).2

theorem value_complement (a : Bits) :
    value inputs (complement a) + value inputs a + 1 = 2 ^ a.length := by
  induction a with
  | nil => rfl
  | cons a as ih =>
      have step : complement (a :: as) = a.negate :: complement as := rfl
      rw [step, value_cons, value_cons, eval_negate, List.length_cons, Nat.pow_succ]
      cases a.eval inputs <;> simp <;> omega

@[simp] theorem length_complement (a : Bits) : (complement a).length = a.length := List.length_map _

theorem length_ofTruth (width : Nat) (truth : Signal) : (ofTruth width truth).length = width := by
  simp [ofTruth]

theorem value_ofTruth (width : Nat) (truth : Signal) :
    value inputs (ofTruth width truth) = (truth.eval inputs).toNat % 2 ^ width := by
  rw [ofTruth, value_take, value_cons, value_zeros, Nat.mul_zero, Nat.add_zero]

theorem value_eq_zero_of_all {a : Bits} (zero : a.all (· = fixed false) = true) :
    value inputs a = 0 := by
  induction a with
  | nil => rfl
  | cons a as ih =>
      rw [List.all_cons, Bool.and_eq_true, decide_eq_true_eq] at zero
      rw [value_cons, zero.1, ih zero.2]
      rfl

theorem split_significant (a : Bits) :
    ∃ low high, a = low ++ high ∧ low.length = significant a ∧
      high.all (· = fixed false) = true := by
  let isZero := fun s : Signal => decide (s = fixed false)
  refine ⟨(a.reverse.dropWhile isZero).reverse, (a.reverse.takeWhile isZero).reverse, ?_, ?_, ?_⟩
  · rw [← List.reverse_append, List.takeWhile_append_dropWhile, List.reverse_reverse]
  · exact List.length_reverse
  · rw [List.all_reverse]
    exact List.all_takeWhile

theorem value_drop_significant (a : Bits) : value inputs (a.drop (significant a)) = 0 := by
  obtain ⟨low, high, same, length, zero⟩ := split_significant a
  rw [← length, same, List.drop_left]
  exact value_eq_zero_of_all zero

theorem value_lt_significant (a : Bits) : value inputs a < 2 ^ significant a := by
  have high := @value_drop_significant inputs a
  rw [value_drop] at high
  exact (Nat.div_eq_zero_iff_lt (Nat.two_pow_pos _)).mp high

theorem significant_le (a : Bits) : significant a ≤ a.length := by
  obtain ⟨low, high, same, length, _⟩ := split_significant a
  have := congrArg List.length same
  rw [List.length_append] at this
  omega

theorem value_moveUp (count : Nat) (a : Bits) :
    value inputs (moveUp count a) = value inputs a * 2 ^ count % 2 ^ a.length := by
  rw [moveUp, value_take, value_append, value_zeros, length_zeros, Nat.zero_add, Nat.mul_comm]

theorem length_moveUp (count : Nat) (a : Bits) : (moveUp count a).length = a.length := by
  simp [moveUp]

theorem value_moveDown (count : Nat) (a : Bits) :
    value inputs (moveDown count a) = value inputs a / 2 ^ count := by
  rw [moveDown, value_append, value_zeros, Nat.mul_zero, Nat.add_zero, value_drop]

theorem length_moveDown (count : Nat) (a : Bits) : (moveDown count a).length = a.length := by
  rw [moveDown, List.length_append, List.length_drop, length_zeros]
  omega

end Bits
end CExpr
