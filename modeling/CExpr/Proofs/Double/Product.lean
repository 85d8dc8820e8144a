import CExpr.Config.Basic
import CExpr.Proofs.Double.Total

/-!
A fraction of a total. Rounding never turns the order of two quotients round, so a larger fraction of a
finite total is no smaller double; a fraction of an infinite total is below no sum at all.
-/
namespace CExpr

def Double.IsUnit (value : Double) : Prop := value.isNonnegative = true ∧ value.lt .one = true

theorem roundQuotient_mono {num other den : Nat} (ordered : num ≤ other) :
    roundQuotient num den ≤ roundQuotient other den := by
  have quotients : num / den ≤ other / den := Nat.div_le_div_right ordered
  by_cases apart : num / den < other / den
  · have above : other / den ≤ roundQuotient other den := by
      rcases roundQuotient_eq_or other den with same | same <;> omega
    exact Nat.le_trans (roundQuotient_le num den) (Nat.le_trans apart above)
  · -- Where the quotients are equal the remainders decide, and they are ordered as well.
    have same : num / den = other / den := by omega
    have remainders : num % den ≤ other % den := by
      have first := Nat.div_add_mod num den
      have second := Nat.div_add_mod other den
      rw [same] at first
      omega
    unfold roundQuotient
    dsimp only
    rw [same]
    repeat' split
    all_goals omega

theorem log2_mono {num other : Nat} (ordered : num ≤ other) : num.log2 ≤ other.log2 := by
  by_cases null : num = 0
  · rw [null, Nat.log2_zero]
    exact Nat.zero_le _
  · apply (Nat.le_log2 (by omega)).mpr
    exact Nat.le_trans (Nat.log2_self_le null) ordered

/-- If the same bits are dropped of both, the quotients of what is kept decide. If more are dropped of
the larger one, there is a power of two between the two results. -/
theorem roundUnits_mono {num other den : Nat} (positive : 0 < den) (ordered : num ≤ other) :
    roundUnits num den ≤ roundUnits other den := by
  have quotients : num / den ≤ other / den := Nat.div_le_div_right ordered
  have dropped : droppedBits num den ≤ droppedBits other den :=
    Nat.sub_le_sub_right (log2_mono quotients) 52
  by_cases same : droppedBits num den = droppedBits other den
  · unfold roundUnits
    rw [same]
    exact Nat.mul_le_mul_right _ (roundQuotient_mono ordered)
  · have bits : 53 + droppedBits num den ≤ (other / den).log2 := by
      unfold droppedBits at dropped same ⊢
      omega
    have nonzero : other / den ≠ 0 := by
      intro null
      rw [null] at bits
      simp at bits
    have reached : 2 ^ (53 + droppedBits num den) * den ≤ other := by
      apply (Nat.le_div_iff_mul_le positive).mp
      exact Nat.le_trans (Nat.pow_le_pow_right Nat.two_pos bits) (Nat.log2_self_le nonzero)
    have small : roundQuotient num (den * 2 ^ droppedBits num den) ≤ 2 ^ 53 := by
      refine Nat.le_trans (roundQuotient_le _ _) ?_
      rw [← Nat.div_div_eq_div_mul]
      apply (Nat.div_lt_iff_lt_mul (Nat.two_pow_pos _)).mpr
      rw [← Nat.pow_add]
      exact lt_two_pow_droppedBits num den
    calc roundUnits num den ≤ 2 ^ 53 * 2 ^ droppedBits num den := Nat.mul_le_mul_right _ small
      _ = 2 ^ (53 + droppedBits num den) := (Nat.pow_add ..).symm
      _ ≤ roundUnits other den := two_pow_le_roundUnits other den _ positive reached

namespace Double

theorem unitsPerOne_pos : 0 < unitsPerOne := by
  unfold unitsPerOne
  apply Nat.two_pow_pos

theorem zero_isUnit : (zero false).IsUnit := ⟨rfl, by decide +kernel⟩

theorem zero_mul_of_isFinite {total : Double} (isFinite : total.isFinite = true)
    (positive : total.isPositive = true) : (zero false).mul total = zero false := by
  cases total with
  | nan | infinite negative => cases isFinite
  | finite negative units fits =>
      cases (isPositive_finite.mp positive).1
      rw [zero, mul]
      refine ofUnits_eq_zero _ _ _ ?_
      rw [Nat.zero_mul, Nat.mul_zero]
      exact unitsPerOne_pos

/-- A fraction of infinity is infinite or no number, and so is not below any sum. -/
theorem lt_of_isUnit_mul_infinite {unit : Double} (fraction : unit.IsUnit) (sum : Double) :
    (unit.mul (infinite false)).lt sum = false := by
  obtain ⟨nonnegative, small⟩ := fraction
  cases unit with
  | nan => cases nonnegative
  | infinite negative =>
      cases isNonnegative_infinite.mp nonnegative
      exact absurd small (by decide +kernel)
  | finite negative units fits =>
      rw [mul]
      by_cases null : units = 0
      · rw [if_pos null]
        rfl
      · have plain : negative = false := by
          cases negative with
          | false => rfl
          | true => exact absurd (isNonnegative_finite.mp nonnegative rfl) null
        rw [if_neg null, plain]
        cases sum <;> rfl

theorem eq_infinite_of_isPositive {x : Double} (positive : x.isPositive = true)
    (large : x.isFinite = false) : x = infinite false := by
  cases x with
  | nan => cases positive
  | finite negative units fits => cases large
  | infinite negative => rw [isPositive_infinite.mp positive]

theorem signedUnits_eq {negative : Bool} {units : Nat} (null : negative = true → units = 0) :
    signedUnits negative units = units := by
  cases negative with
  | false => rfl
  | true =>
      rw [null rfl]
      rfl

theorem ofUnits_le_ofUnits {negative other : Bool} {num count den : Nat} (positive : 0 < den)
    (null : negative = true → num = 0) (otherNull : other = true → count = 0)
    (ordered : num ≤ count) :
    (ofUnits negative num den).le (ofUnits other count den) = true := by
  have zeroUnits : roundUnits 0 den = 0 := roundUnits_eq_zero 0 den (by omega)
  have rounded := roundUnits_mono positive ordered
  unfold ofUnits
  by_cases fits : roundUnits count den < unitsLimit
  · have smaller : roundUnits num den < unitsLimit := Nat.lt_of_le_of_lt rounded fits
    rw [dif_pos fits, dif_pos smaller, le_finite,
      signedUnits_eq fun minus => by rw [null minus, zeroUnits],
      signedUnits_eq fun minus => by rw [otherNull minus, zeroUnits]]
    exact Int.ofNat_le.mpr rounded
  · -- Zero does not round to a count that is too large, so the infinite one has no sign.
    have plain : other = false := by
      cases other with
      | false => rfl
      | true =>
          rw [otherNull rfl, zeroUnits] at fits
          exact absurd unitsLimit_pos fits
    rw [dif_neg fits, plain]
    split
    · rfl
    · rename_i large
      have unsigned : negative = false := by
        cases negative with
        | false => rfl
        | true =>
            rw [null rfl, zeroUnits] at large
            exact absurd unitsLimit_pos large
      rw [unsigned]
      rfl

theorem mul_le_mul_of_isUnit {unit larger total : Double} (fraction : unit.IsUnit)
    (other : larger.IsUnit) (ordered : unit.le larger = true) (positive : total.isPositive = true)
    (isFinite : total.isFinite = true) : (unit.mul total).le (larger.mul total) = true := by
  cases total with
  | nan | infinite negative => cases isFinite
  | finite sign count countFits =>
      cases (isPositive_finite.mp positive).1
      cases unit with
      | nan => cases fraction.1
      | infinite negative =>
          cases isNonnegative_infinite.mp fraction.1
          exact absurd fraction.2 (by decide +kernel)
      | finite negative units fits =>
          cases larger with
          | nan => cases other.1
          | infinite negative =>
              cases isNonnegative_infinite.mp other.1
              exact absurd other.2 (by decide +kernel)
          | finite sign more moreFits =>
              have null := isNonnegative_finite.mp fraction.1
              have otherNull := isNonnegative_finite.mp other.1
              have bound := le_finite.mp ordered
              rw [signedUnits_eq null, signedUnits_eq otherNull] at bound
              rw [mul, mul]
              apply ofUnits_le_ofUnits unitsPerOne_pos
              · intro minus
                rw [null (by simpa using minus), Nat.zero_mul]
              · intro minus
                rw [otherNull (by simpa using minus), Nat.zero_mul]
              · exact Nat.mul_le_mul_right _ (Int.ofNat_le.mp bound)

end Double
end CExpr
