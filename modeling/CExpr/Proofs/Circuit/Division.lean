import CExpr.Proofs.Circuit.Arithmetic

/-!
Long division in circuits: from the highest bit of the dividend down, what has been read of it is
divided. A divisor of zero sets every bit of the quotient and leaves the dividend.
-/
namespace CExpr

open Signal

namespace Bits

variable (inputs : Nat → Bool) {divisor quotient remainder : Bits}

theorem value_dropLast {a : Bits} (small : value inputs a < 2 ^ (a.length - 1)) :
    value inputs a.dropLast = value inputs a := by
  rw [List.dropLast_eq_take, value_take, Nat.mod_eq_of_lt small]

theorem yields_difference {low high : Bits} (zero : value inputs high = 0)
    (same : (low ++ high).length = divisor.length) :
    Yields (subtract low (divisor.take low.length)) fun difference =>
      difference.length = low.length ∧
        (value inputs divisor ≤ value inputs (low ++ high) → value inputs difference =
          value inputs (low ++ high) - value inputs divisor) := by
  rw [value_append, zero, Nat.mul_zero, Nat.add_zero]
  have enough : low.length ≤ divisor.length := by
    rw [← same, List.length_append]
    exact Nat.le_add_right _ _
  refine (yields_subtract inputs (List.length_take_of_le enough).symm).imp
    fun difference ⟨length, isDifference⟩ => ⟨length, fun reaches => isDifference.trans ?_⟩
  have small := @value_lt inputs low
  rw [value_take, Nat.mod_eq_of_lt (Nat.lt_of_le_of_lt reaches small)]
  have whole : value inputs low + (2 ^ low.length - value inputs divisor) =
      value inputs low - value inputs divisor + 2 ^ low.length := by omega
  rw [whole, Nat.add_mod_right, Nat.mod_eq_of_lt (Nat.lt_of_le_of_lt (Nat.sub_le _ _) small)]

/-- The remainder takes in the next bit, and gives off the divisor where it reaches it. -/
theorem yields_divideStep (bit : Signal) (same : remainder.length = divisor.length)
    (room : 2 * value inputs remainder + 1 < 2 ^ divisor.length) :
    Yields (divideStep divisor (quotient, remainder) bit) fun next =>
      let joined := value inputs (bit :: remainder)
      let small := joined < value inputs divisor
      next.1.length = quotient.length + 1 ∧ next.2.length = divisor.length ∧
        value inputs next.1 = (if small then 0 else 1) + 2 * value inputs quotient ∧
        value inputs next.2 = if small then joined else joined - value inputs divisor := by
  have isJoined : value inputs (bit :: remainder).dropLast = value inputs (bit :: remainder) := by
    refine value_dropLast inputs ?_
    have := Bool.toNat_lt (bit.eval inputs)
    rw [value_cons, List.length_cons, Nat.add_sub_cancel, same]
    omega
  have length : (bit :: remainder).dropLast.length = divisor.length := by
    rw [List.length_dropLast, List.length_cons, Nat.add_sub_cancel, same]
  simp only [divideStep, List.splitAt_eq]
  rw [← isJoined]
  have zero := @value_drop_significant inputs (bit :: remainder).dropLast
  have parts := List.take_append_drop (significant (bit :: remainder).dropLast)
    (bit :: remainder).dropLast
  revert length zero parts
  generalize (bit :: remainder).dropLast = joined
  generalize joined.take (significant joined) = low
  generalize joined.drop (significant joined) = high
  rintro length zero rfl
  refine Yields.bind (yields_less inputs length) fun small isSmall => ?_
  refine Yields.bind (yields_difference inputs zero length) fun difference isDifference => ?_
  obtain ⟨differenceLength, isDifference⟩ := isDifference
  refine Yields.bind (yields_chosen inputs small differenceLength.symm) fun chosen isChosen => ?_
  obtain ⟨chosenLength, isChosen⟩ := isChosen
  rw [show (fixed false).eval inputs = false from rfl] at isSmall
  simp only [Bool.false_eq_true, and_false, or_false] at isSmall
  refine .pure ⟨rfl, ?_, ?_, ?_⟩
  · rw [List.length_append, chosenLength, ← List.length_append, length]
  · rw [value_cons, eval_negate, isSmall]
    by_cases below : value inputs (low ++ high) < value inputs divisor <;> simp [below]
  · rw [value_append, zero, Nat.mul_zero, Nat.add_zero, isChosen, isSmall]
    by_cases below : value inputs (low ++ high) < value inputs divisor
    · rw [if_pos below, if_pos (decide_eq_true below), value_append, zero, Nat.mul_zero,
        Nat.add_zero]
    · rw [if_neg below, if_neg (by simp [below]), isDifference (Nat.le_of_not_lt below)]

theorem divMod_of_lt_twice {number divisor : Nat} (small : number < 2 * divisor) :
    number / divisor = (if number < divisor then 0 else 1) ∧
      number % divisor = if number < divisor then number else number - divisor := by
  split
  · rename_i below
    exact ⟨Nat.div_eq_of_lt below, Nat.mod_eq_of_lt below⟩
  · have once : number - divisor < divisor := by omega
    have reaches : divisor ≤ number := by omega
    rw [Nat.mod_eq_sub_mod reaches, Nat.mod_eq_of_lt once, Nat.div_eq_sub_div (by omega) reaches,
      Nat.div_eq_of_lt once]
    exact ⟨rfl, rfl⟩

/-- Quotient and remainder of what has been read of a dividend, when one more bit is read. -/
theorem divMod_step (bit : Bool) {number width divisor quotient remainder joined : Nat}
    (isQuotient : quotient = if divisor = 0 then 2 ^ width - 1 else number / divisor)
    (isRemainder : remainder = number % divisor) (isJoined : joined = bit.toNat + 2 * remainder) :
    (if joined < divisor then 0 else 1) + 2 * quotient =
        (if divisor = 0 then 2 ^ (width + 1) - 1 else (bit.toNat + 2 * number) / divisor) ∧
      (if joined < divisor then joined else joined - divisor) =
        (bit.toNat + 2 * number) % divisor := by
  by_cases zero : divisor = 0
  · subst zero
    rw [Nat.mod_zero] at isRemainder
    rw [isQuotient, if_pos rfl, if_pos rfl, if_neg (Nat.not_lt_zero _), if_neg (Nat.not_lt_zero _),
      Nat.mod_zero, isJoined, isRemainder, Nat.pow_succ]
    have := Nat.two_pow_pos width
    omega
  · rw [if_neg zero] at isQuotient ⊢
    have small := Nat.mod_lt number (Nat.pos_of_ne_zero zero)
    have bitSmall := Bool.toNat_lt bit
    have whole : bit.toNat + 2 * number = joined + divisor * (2 * quotient) := by
      have := Nat.div_add_mod number divisor
      rw [← isQuotient, ← isRemainder] at this
      grind only
    have ⟨once, rest⟩ := divMod_of_lt_twice (show joined < 2 * divisor by omega)
    rw [whole, Nat.add_mul_div_left _ _ (Nat.pos_of_ne_zero zero), Nat.add_mul_mod_self_left, once,
      rest]
    exact ⟨rfl, rfl⟩

theorem yields_divide {a b : Bits} (fits : a.length ≤ b.length) :
    Yields (a.reverse.foldlM (divideStep b) ([], zeros b.length)) fun word =>
      word.1.length = a.length ∧ word.2.length = b.length ∧
        value inputs word.1 = (if value inputs b = 0 then 2 ^ a.length - 1
          else value inputs a / value inputs b) ∧
        value inputs word.2 = value inputs a % value inputs b := by
  induction a with
  | nil =>
      refine .pure ⟨rfl, length_zeros _, ?_, ?_⟩
      · rw [value_nil, Nat.zero_div, List.length_nil]
        exact (ite_self _).symm
      · rw [value_zeros, value_nil, Nat.zero_mod]
  | cons bit a ih =>
      rw [List.reverse_cons, List.foldlM_append]
      refine Yields.bind (ih (Nat.le_of_succ_le fits)) fun before held => ?_
      obtain ⟨quotientLength, remainderLength, isQuotient, isRemainder⟩ := held
      rw [List.foldlM_cons]
      have room : 2 * value inputs before.2 + 1 < 2 ^ b.length := by
        have remainderLe := Nat.mod_le (value inputs a) (value inputs b)
        have wide : 2 ^ (a.length + 1) ≤ 2 ^ b.length := Nat.pow_le_pow_right Nat.two_pos fits
        have small := @value_lt inputs a
        rw [Nat.pow_succ] at wide
        omega
      refine Yields.bind (yields_divideStep inputs bit remainderLength room) fun next held => ?_
      have ⟨nextLength, restLength, isNext, isRest⟩ := held
      have step := divMod_step (bit.eval inputs) isQuotient isRemainder rfl
      refine .pure ⟨?_, restLength, isNext.trans step.1, isRest.trans step.2⟩
      rw [nextLength, quotientLength, List.length_cons]

end Bits
end CExpr
