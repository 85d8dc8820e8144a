import CExpr.Double.Rounding
import CExpr.Proofs.Double.Exact
import CExpr.Proofs.Double.Order

/-!
Sums of doubles that are zero or more. Such a sum is zero or more itself, though it may be infinite,
and it is positive exactly if one of its summands is: rounding never loses the last positive unit.
-/
namespace CExpr.Double

theorem isPositive_iff_signedUnits {negative : Bool} {units : Nat} {fits : Representable units} :
    (finite negative units fits).isPositive = true ↔ 0 < signedUnits negative units :=
  decide_eq_true_iff

theorem isPositive_finite {negative : Bool} {units : Nat} {fits : Representable units} :
    (finite negative units fits).isPositive = true ↔ negative = false ∧ units ≠ 0 := by
  rw [isPositive_iff_signedUnits]
  cases negative with
  | false =>
      simp only [signedUnits, Bool.false_eq_true, if_false, true_and]
      omega
  | true =>
      refine iff_of_false ?_ fun holds => Bool.noConfusion holds.1
      simp only [signedUnits, if_true]
      omega

theorem isPositive_infinite {negative : Bool} :
    (infinite negative).isPositive = true ↔ negative = false := by
  cases negative <;> simp [isPositive, zero, lt]

theorem isNonnegative_of_isPositive {x : Double} (positive : x.isPositive = true) :
    x.isNonnegative = true := by
  unfold isNonnegative le
  rw [Bool.or_eq_true]
  exact .inl positive

theorem eq_zero_of_not_isPositive {x : Double} (nonnegative : x.isNonnegative = true)
    (small : x.isPositive = false) : ∃ negative, x = zero negative := by
  cases x with
  | nan => cases nonnegative
  | infinite negative =>
      rw [isPositive_infinite.mpr (isNonnegative_infinite.mp nonnegative)] at small
      cases small
  | finite negative units fits =>
      by_cases null : units = 0
      · subst null
        exact ⟨negative, rfl⟩
      · cases negative with
        | false =>
            rw [isPositive_finite.mpr ⟨rfl, null⟩] at small
            cases small
        | true => exact absurd (isNonnegative_finite.mp nonnegative rfl) null

theorem le_zero_iff {x : Double} (nonnegative : x.isNonnegative = true) :
    x.le (zero false) = true ↔ x.isPositive = false := by
  constructor
  · intro bounded
    cases x with
    | nan => cases nonnegative
    | infinite negative =>
        rw [isNonnegative_infinite.mp nonnegative] at bounded
        cases bounded
    | finite negative units fits =>
        have upper : signedUnits negative units ≤ 0 := le_finite.mp bounded
        apply decide_eq_false
        exact Int.not_lt_of_ge upper
  · intro small
    obtain ⟨negative, rfl⟩ := eq_zero_of_not_isPositive nonnegative small
    cases negative <;> rfl

theorem roundUnits_pos {units : Nat} (nonzero : units ≠ 0) : 0 < roundUnits units 1 := by
  apply two_pow_le_roundUnits units 1 0 Nat.one_pos
  omega

theorem ofUnits_isPositive {units : Nat} (nonzero : units ≠ 0) :
    (ofUnits false units 1).isPositive = true := by
  unfold ofUnits
  split
  · exact isPositive_finite.mpr ⟨rfl, Nat.ne_of_gt (roundUnits_pos nonzero)⟩
  · rfl

/-- The sum of two numbers that are zero or more, and when it is positive. -/
theorem add_of_isNonnegative {x y : Double} (first : x.isNonnegative = true)
    (second : y.isNonnegative = true) :
    (x.add y).isNonnegative = true ∧
      ((x.add y).isPositive = true ↔ x.isPositive = true ∨ y.isPositive = true) := by
  cases x with
  | nan => cases first
  | infinite a =>
      cases isNonnegative_infinite.mp first
      cases y with
      | nan => cases second
      | infinite b => cases isNonnegative_infinite.mp second; decide
      | finite b v otherFits => exact ⟨rfl, iff_of_true rfl (.inl rfl)⟩
  | finite a u fits =>
      cases y with
      | nan => cases second
      | infinite b =>
          cases isNonnegative_infinite.mp second
          exact ⟨rfl, iff_of_true rfl (.inr rfl)⟩
      | finite b v otherFits =>
          have left := signedUnits_nonneg.mpr (isNonnegative_finite.mp first)
          have right := signedUnits_nonneg.mpr (isNonnegative_finite.mp second)
          rw [isPositive_iff_signedUnits, isPositive_iff_signedUnits, add]
          by_cases null : signedUnits a u + signedUnits b v = 0
          · rw [if_pos null]
            cases a && b <;> exact ⟨rfl, iff_of_false Bool.false_ne_true (by omega)⟩
          · have sign : decide (signedUnits a u + signedUnits b v < 0) = false :=
              decide_eq_false (by omega)
            have positive : (ofUnits false (signedUnits a u + signedUnits b v).natAbs 1).isPositive =
                true := ofUnits_isPositive (Int.natAbs_ne_zero.mpr null)
            rw [if_neg null, sign]
            exact ⟨isNonnegative_of_isPositive positive, iff_of_true positive (by omega)⟩

theorem signedUnits_zero (negative : Bool) : signedUnits negative 0 = 0 := by
  cases negative <;> rfl

theorem lt_zero_eq (value : Double) (negative other : Bool) :
    value.lt (zero negative) = value.lt (zero other) := by
  cases value with
  | nan | infinite sign => rfl
  | finite sign units fits => rw [zero, zero, lt, lt, signedUnits_zero, signedUnits_zero]

theorem lt_add_of_not_isPositive {x y : Double} (first : x.isNonnegative = true)
    (second : y.isNonnegative = true) (small : y.isPositive = false) (value : Double) :
    value.lt (x.add y) = value.lt x := by
  obtain ⟨negative, rfl⟩ := eq_zero_of_not_isPositive second small
  cases x with
  | nan => cases first
  | infinite sign => rfl
  | finite sign units fits =>
      by_cases null : units = 0
      · subst null
        rw [zero, add, signedUnits_zero, signedUnits_zero]
        exact lt_zero_eq value _ sign
      · have plain : sign = false := sign_of_isNonnegative first null
        have count : signedUnits sign units + signedUnits negative 0 = units := by
          rw [plain, signedUnits_zero]
          exact Int.add_zero _
        have unchanged :
            (finite sign units fits).add (zero negative) = ofUnits false (units * 1) 1 := by
          rw [zero, add, count, if_neg (by omega), Nat.mul_one]
          congr 1
        rw [unchanged, ofUnits_of_representable false fits 1 Nat.one_pos, plain]

variable {values : List Double}

theorem foldl_add_of_isNonnegative {start : Double} (first : start.isNonnegative = true)
    (nonnegative : ∀ value ∈ values, value.isNonnegative = true) :
    (values.foldl add start).isNonnegative = true ∧
      ((values.foldl add start).isPositive = true ↔
        start.isPositive = true ∨ ∃ value ∈ values, value.isPositive = true) := by
  induction values generalizing start with
  | nil => simp [first]
  | cons value rest ih =>
      obtain ⟨legal, positive⟩ := add_of_isNonnegative first (nonnegative value List.mem_cons_self)
      obtain ⟨whole, later⟩ := ih legal fun other member =>
        nonnegative other (List.mem_cons_of_mem _ member)
      refine ⟨whole, ?_⟩
      rw [List.foldl_cons, later, positive]
      simp only [List.mem_cons, exists_eq_or_imp, or_assoc]

theorem sum_isNonnegative (nonnegative : ∀ value ∈ values, value.isNonnegative = true) :
    (sum values).isNonnegative = true :=
  (foldl_add_of_isNonnegative rfl nonnegative).1

theorem sum_isPositive_iff (nonnegative : ∀ value ∈ values, value.isNonnegative = true) :
    (sum values).isPositive = true ↔ ∃ value ∈ values, value.isPositive = true := by
  unfold sum
  rw [(foldl_add_of_isNonnegative rfl nonnegative).2]
  exact or_iff_right Bool.false_ne_true

end CExpr.Double
