import CExpr.Double.Decimal

/-!
When rounding does nothing, and when two quotients round alike. A count of units that a double can
hold is its own rounding, a quotient may be extended by any factor, and a decimal may trade zeros at
its end for its exponent. The bounds beyond which a decimal is decided without computing its power
are no different from computing it.
-/
namespace CExpr

theorem roundQuotient_mul_right (count den : Nat) (positive : 0 < den) :
    roundQuotient (count * den) den = count := by
  simp [roundQuotient, Nat.mul_div_cancel _ positive, positive]

theorem roundQuotient_eq_or (num den : Nat) :
    roundQuotient num den = num / den ∨ roundQuotient num den = num / den + 1 := by
  unfold roundQuotient
  dsimp only
  split
  · exact .inl rfl
  · split
    · exact .inr rfl
    · omega

theorem roundQuotient_mul_mul (num den factor : Nat) (positive : 0 < factor) :
    roundQuotient (num * factor) (den * factor) = roundQuotient num den := by
  have double : 2 * (num % den * factor) = 2 * (num % den) * factor := (Nat.mul_assoc ..).symm
  simp only [roundQuotient, Nat.mul_div_mul_right _ _ positive, Nat.mul_mod_mul_right, double,
    Nat.mul_lt_mul_right positive]

theorem roundUnits_mul_mul (num den factor : Nat) (positive : 0 < factor) :
    roundUnits (num * factor) (den * factor) = roundUnits num den := by
  have dropped : droppedBits (num * factor) (den * factor) = droppedBits num den := by
    rw [droppedBits, Nat.mul_div_mul_right _ _ positive, droppedBits]
  have regroup : den * factor * 2 ^ droppedBits num den =
      den * 2 ^ droppedBits num den * factor := by
    rw [Nat.mul_assoc, Nat.mul_comm factor, Nat.mul_assoc]
  rw [roundUnits, dropped, regroup, roundQuotient_mul_mul _ _ _ positive, roundUnits]

theorem roundUnits_congr {a b c d : Nat} (cross : a * d = c * b) (positive : 0 < b)
    (otherPositive : 0 < d) : roundUnits a b = roundUnits c d := by
  rw [← roundUnits_mul_mul a b d otherPositive, cross, Nat.mul_comm b d,
    roundUnits_mul_mul c d b positive]

theorem two_pow_split {a b c : Nat} (same : c = a + b) : 2 ^ c = 2 ^ a * 2 ^ b := by
  rw [same, Nat.pow_add]

theorem five_pow_mul_two_pow (exponent : Nat) : 5 ^ exponent * 2 ^ exponent = 10 ^ exponent :=
  (Nat.mul_pow 5 2 exponent).symm

theorem unitsLimit_eq : unitsLimit = 2 ^ 1024 * unitsPerOne := by
  rw [unitsLimit.eq_1, unitsPerOne.eq_1, @two_pow_split 1024 1074 2098 (by decide)]

theorem unitsLimit_eq_two_pow : ∃ bits, unitsLimit = 2 ^ bits := ⟨_, unitsLimit.eq_1⟩

theorem five_pow_mul_unitsPerOne : 5 ^ 1074 * unitsPerOne = 10 ^ 1074 := by
  rw [unitsPerOne.eq_1]
  exact five_pow_mul_two_pow 1074

/-- A count that fits into a double loses nothing. -/
theorem roundUnits_of_representable {units : Nat} (fits : Representable units) (den : Nat)
    (positive : 0 < den) : roundUnits (units * den) den = units := by
  have dropped : droppedBits (units * den) den = units.log2 - 52 := by
    rw [droppedBits, Nat.mul_div_cancel _ positive]
  obtain ⟨leading, same⟩ := fits.1
  have regroup : units * den = leading * (den * 2 ^ (units.log2 - 52)) := by
    rw [← Nat.mul_assoc, Nat.mul_right_comm, Nat.mul_comm leading, ← same]
  rw [roundUnits, dropped, regroup,
    roundQuotient_mul_right _ _ (Nat.mul_pos positive (Nat.two_pow_pos _)), Nat.mul_comm, ← same]

theorem roundUnits_eq_zero (num den : Nat) (small : 2 * num < den) : roundUnits num den = 0 := by
  have lower : num < den := by omega
  simp [roundUnits, roundQuotient, droppedBits, Nat.div_eq_of_lt lower, Nat.mod_eq_of_lt lower,
    small]

theorem two_pow_le_roundUnits (num den bits : Nat) (positive : 0 < den)
    (large : 2 ^ bits * den ≤ num) : 2 ^ bits ≤ roundUnits num den := by
  have reaches : 2 ^ bits ≤ num / den := (Nat.le_div_iff_mul_le positive).mpr large
  have nonzero : num / den ≠ 0 := by
    have := Nat.two_pow_pos bits
    omega
  have leading : bits ≤ (num / den).log2 := (Nat.le_log2 nonzero).mpr reaches
  have split : 2 ^ (num / den).log2 =
      2 ^ ((num / den).log2 - droppedBits num den) * 2 ^ droppedBits num den := by
    rw [← Nat.pow_add]
    congr 1
    unfold droppedBits
    omega
  have kept : 2 ^ ((num / den).log2 - droppedBits num den) ≤
      num / (den * 2 ^ droppedBits num den) := by
    rw [← Nat.div_div_eq_div_mul, Nat.le_div_iff_mul_le (Nat.two_pow_pos _), ← split]
    exact Nat.log2_self_le nonzero
  -- The bits that are dropped are all below the leading one, which therefore survives.
  calc 2 ^ bits ≤ 2 ^ (num / den).log2 := Nat.pow_le_pow_right Nat.two_pos leading
    _ = 2 ^ ((num / den).log2 - droppedBits num den) * 2 ^ droppedBits num den := split
    _ ≤ num / (den * 2 ^ droppedBits num den) * 2 ^ droppedBits num den :=
        Nat.mul_le_mul_right _ kept
    _ ≤ roundUnits num den := by
        rcases roundQuotient_eq_or num (den * 2 ^ droppedBits num den) with down | up
        · exact Nat.mul_le_mul_right _ (Nat.le_of_eq down.symm)
        · exact Nat.mul_le_mul_right _ (by omega)

namespace Double

theorem ofUnits_congr {a b c d : Nat} (negative : Bool) (same : roundUnits a b = roundUnits c d) :
    ofUnits negative a b = ofUnits negative c d := by
  unfold ofUnits
  simp only [same]

theorem ofUnits_of_representable {units : Nat} (negative : Bool) (fits : Representable units)
    (den : Nat) (positive : 0 < den) :
    ofUnits negative (units * den) den = finite negative units fits := by
  have same := roundUnits_of_representable fits den positive
  unfold ofUnits
  simp only [same]
  exact dif_pos fits.2

theorem ofUnits_eq_zero (negative : Bool) (num den : Nat) (small : 2 * num < den) :
    ofUnits negative num den = zero negative := by
  have same := roundUnits_eq_zero num den small
  unfold ofUnits
  simp only [same]
  exact dif_pos unitsLimit_pos

theorem ofUnits_eq_infinite (negative : Bool) (num den : Nat) (positive : 0 < den)
    (large : unitsLimit * den ≤ num) : ofUnits negative num den = infinite negative := by
  apply dif_neg
  obtain ⟨bits, same⟩ := unitsLimit_eq_two_pow
  rw [same] at large ⊢
  exact Nat.not_lt_of_le (two_pow_le_roundUnits num den bits positive large)

theorem ofRatio_congr {a b c d : Nat} (negative : Bool) (cross : a * d = c * b) (positive : 0 < b)
    (otherPositive : 0 < d) : ofRatio negative a b = ofRatio negative c d := by
  apply ofUnits_congr
  apply roundUnits_congr _ positive otherPositive
  rw [Nat.mul_right_comm, cross, Nat.mul_right_comm]

theorem ofRatio_eq_infinite (negative : Bool) (num den : Nat) (positive : 0 < den)
    (large : 2 ^ 1024 * den ≤ num) : ofRatio negative num den = infinite negative := by
  apply ofUnits_eq_infinite negative _ _ positive
  rw [unitsLimit_eq, Nat.mul_right_comm]
  exact Nat.mul_le_mul_right _ large

theorem ofRatio_eq_zero (negative : Bool) (num den : Nat) (small : num * 2 ^ 1075 < den) :
    ofRatio negative num den = zero negative := by
  apply ofUnits_eq_zero
  have double : 2 * (num * unitsPerOne) = num * 2 ^ 1075 := by
    rw [unitsPerOne.eq_1, Nat.mul_left_comm, @two_pow_split 1 1074 1075 (by decide), Nat.pow_one]
  rw [double]
  exact small

theorem two_pow_le_ten_pow {bits exponent : Nat} (enough : bits ≤ 3 * exponent) :
    2 ^ bits ≤ 10 ^ exponent :=
  calc 2 ^ bits ≤ 2 ^ (3 * exponent) := Nat.pow_le_pow_right Nat.two_pos enough
    _ = (2 ^ 3) ^ exponent := Nat.pow_mul 2 3 exponent
    _ ≤ 10 ^ exponent := Nat.pow_le_pow_left (by decide) exponent

/-- The shortcuts for far exponents give what the exact quotient gives. -/
theorem ofDecimal_eq_ofRatio (negative : Bool) (digits : Nat) (exponent : Int)
    (nonzero : digits ≠ 0) :
    ofDecimal negative digits exponent =
      ofRatio negative (digits * 10 ^ exponent.toNat) (10 ^ (-exponent).toNat) := by
  unfold ofDecimal
  rw [if_neg nonzero]
  by_cases high : 400 < exponent
  · -- One digit times such a power is beyond every double.
    have whole : (-exponent).toNat = 0 := by omega
    have far : 2 ^ 1024 ≤ 10 ^ exponent.toNat := two_pow_le_ten_pow (by omega)
    have large : 2 ^ 1024 * 1 ≤ digits * 10 ^ exponent.toNat := by
      rw [Nat.mul_one]
      exact Nat.le_trans far (Nat.le_mul_of_pos_left _ (Nat.pos_of_ne_zero nonzero))
    rw [if_pos high, whole, Nat.pow_zero, ofRatio_eq_infinite negative _ 1 Nat.one_pos large]
  · rw [if_neg high]
    by_cases low : exponent < -400 - (digits.log2 : Int)
    · have whole : exponent.toNat = 0 := by omega
      -- The digits make up for at most their own bits, and less than half a unit is left.
      have bound : digits < 2 ^ (digits.log2 + 1) := Nat.lt_log2_self
      have enough : digits.log2 + 1 + 1075 ≤ 3 * (-exponent).toNat := by omega
      have small : digits * 1 * 2 ^ 1075 < 10 ^ (-exponent).toNat :=
        calc digits * 1 * 2 ^ 1075 = digits * 2 ^ 1075 := by rw [Nat.mul_one]
          _ < 2 ^ (digits.log2 + 1) * 2 ^ 1075 :=
              Nat.mul_lt_mul_of_pos_right bound (Nat.two_pow_pos _)
          _ = 2 ^ (digits.log2 + 1 + 1075) := by rw [Nat.pow_add _ (digits.log2 + 1)]
          _ ≤ 10 ^ (-exponent).toNat := two_pow_le_ten_pow enough
      rw [if_pos low, whole, Nat.pow_zero, ofRatio_eq_zero negative _ _ small]
    · rw [if_neg low]

theorem ofDecimal_mul_ten_pow (negative : Bool) (digits places : Nat) (exponent : Int) :
    ofDecimal negative (digits * 10 ^ places) exponent =
      ofDecimal negative digits (exponent + places) := by
  by_cases null : digits = 0
  · simp [null, ofDecimal]
  · have positive : ∀ power : Nat, 0 < 10 ^ power := fun power => Nat.pow_pos (by decide)
    have scaled : digits * 10 ^ places ≠ 0 := Nat.mul_ne_zero null (Nat.ne_of_gt (positive places))
    rw [ofDecimal_eq_ofRatio _ _ _ scaled, ofDecimal_eq_ofRatio _ _ _ null]
    apply ofRatio_congr negative _ (positive _) (positive _)
    rw [Nat.mul_assoc digits, Nat.mul_assoc digits, Nat.mul_assoc digits, ← Nat.pow_add,
      ← Nat.pow_add, ← Nat.pow_add]
    congr 2
    omega

end Double
end CExpr
