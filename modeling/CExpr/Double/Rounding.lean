import CExpr.Double.Basic

/-!
Rounding an exact quotient to the nearest double, a tie to the one with the even last bit. Every
operation on doubles computes its result exactly and rounds once, here. A result that rounds to
2^1024 or more is infinite. An exact sum of zero is positive unless both summands are negative, and
infinity meets its opposite, or zero in a product, in `nan`.
-/
namespace CExpr

/-- The whole number nearest to a quotient; of two equally near ones the even one. -/
def roundQuotient (num den : Nat) : Nat :=
  let quotient := num / den
  let twice := 2 * (num % den)
  if twice < den then quotient
  else if den < twice then quotient + 1
  else quotient + quotient % 2

def droppedBits (num den : Nat) : Nat := (num / den).log2 - 52

def roundUnits (num den : Nat) : Nat :=
  roundQuotient num (den * 2 ^ droppedBits num den) * 2 ^ droppedBits num den

theorem roundQuotient_le (num den : Nat) : roundQuotient num den ≤ num / den + 1 := by
  unfold roundQuotient
  dsimp only
  split
  · omega
  · split <;> omega

theorem lt_two_pow_droppedBits (num den : Nat) : num / den < 2 ^ (53 + droppedBits num den) := by
  by_cases h : num / den = 0
  · rw [h]; exact Nat.two_pow_pos _
  · rw [← Nat.log2_lt h]; unfold droppedBits; omega

theorem dvd_of_leading_bits (m s : Nat) (h : m ≤ 2 ^ 53) :
    2 ^ ((m * 2 ^ s).log2 - 52) ∣ m * 2 ^ s := by
  by_cases small : m < 2 ^ 53
  · by_cases null : m * 2 ^ s = 0
    · rw [null]; exact Nat.dvd_zero _
    · have bound : m * 2 ^ s < 2 ^ (53 + s) := by
        rw [Nat.pow_add]; exact Nat.mul_lt_mul_of_pos_right small (Nat.two_pow_pos s)
      have := (Nat.log2_lt null).mpr bound
      exact Nat.dvd_trans (Nat.pow_dvd_pow 2 (by omega)) (Nat.dvd_mul_left _ _)
  · have : m = 2 ^ 53 := by omega
    subst this
    rw [← Nat.pow_add, Nat.log2_two_pow]
    exact Nat.pow_dvd_pow 2 (by omega)

theorem representable_roundUnits (num den : Nat) (h : roundUnits num den < unitsLimit) :
    Representable (roundUnits num den) := by
  refine ⟨dvd_of_leading_bits _ _ ?_, h⟩
  refine Nat.le_trans (roundQuotient_le _ _) ?_
  rw [← Nat.div_div_eq_div_mul]
  have := lt_two_pow_droppedBits num den
  have : num / den / 2 ^ droppedBits num den < 2 ^ 53 := by
    rw [Nat.div_lt_iff_lt_mul (Nat.two_pow_pos _), ← Nat.pow_add]; exact this
  omega

namespace Double

def ofUnits (negative : Bool) (num den : Nat) : Double :=
  if h : roundUnits num den < unitsLimit then
    finite negative (roundUnits num den) (representable_roundUnits num den h)
  else infinite negative

def ofRatio (negative : Bool) (num den : Nat) : Double := ofUnits negative (num * unitsPerOne) den

def ofInt (value : Int) : Double := ofRatio (value < 0) value.natAbs 1

def add : Double → Double → Double
  | nan, _ | _, nan => nan
  | infinite a, infinite b => if a = b then infinite a else nan
  | infinite a, finite .. => infinite a
  | finite .., infinite b => infinite b
  | finite a u _, finite b v _ =>
    let sum := signedUnits a u + signedUnits b v
    if sum = 0 then zero (a && b) else ofUnits (sum < 0) sum.natAbs 1

def sub (x y : Double) : Double := x.add y.neg

def mul : Double → Double → Double
  | nan, _ | _, nan => nan
  | infinite a, infinite b => infinite (a != b)
  | infinite a, finite b v _ | finite b v _, infinite a => if v = 0 then nan else infinite (a != b)
  | finite a u _, finite b v _ => ofUnits (a != b) (u * v) unitsPerOne

def sum (values : List Double) : Double := values.foldl add (zero false)

end Double
end CExpr
