import CExpr.Double.Rounding

/-!
Doubles that are zero or more. Negative zero is among them, and it is the only one with a sign.
-/
namespace CExpr.Double

theorem signedUnits_nonneg {negative : Bool} {units : Nat} :
    0 ≤ signedUnits negative units ↔ (negative = true → units = 0) := by
  cases negative with
  | false => simp [signedUnits]
  | true =>
      have sign : signedUnits true units = -(units : Int) := rfl
      simp only [sign, forall_const]
      omega

theorem le_finite {negative other : Bool} {units count : Nat} {fits : Representable units}
    {otherFits : Representable count} :
    (finite negative units fits).le (finite other count otherFits) = true ↔
      signedUnits negative units ≤ signedUnits other count := by
  simp only [le, lt, equals, Bool.or_eq_true, decide_eq_true_eq, beq_iff_eq]
  omega

theorem isNonnegative_finite {negative : Bool} {units : Nat} {fits : Representable units} :
    (finite negative units fits).isNonnegative = true ↔ (negative = true → units = 0) :=
  le_finite.trans signedUnits_nonneg

theorem sign_of_isNonnegative {negative : Bool} {units : Nat} {fits : Representable units}
    (legal : (finite negative units fits).isNonnegative = true) (nonzero : units ≠ 0) :
    negative = false := by
  cases negative with
  | false => rfl
  | true => exact absurd (isNonnegative_finite.mp legal rfl) nonzero

theorem isNonnegative_infinite {negative : Bool} :
    (infinite negative).isNonnegative = true ↔ negative = false := by
  cases negative <;> simp [isNonnegative, le, zero, lt, equals]

theorem ofUnits_isNonnegative {negative : Bool} {num den : Nat}
    (null : negative = true → num = 0) : (ofUnits negative num den).isNonnegative = true := by
  have rounds : negative = true → roundUnits num den = 0 := by
    intro minus
    rw [null minus]
    simp [roundUnits, roundQuotient]
  unfold ofUnits
  split
  · exact isNonnegative_finite.mpr rounds
  · -- Only a count that is too large becomes infinite, and zero is none.
    rename_i large
    apply isNonnegative_infinite.mpr
    cases negative with
    | false => rfl
    | true => exact absurd unitsLimit_pos (rounds rfl ▸ large)

theorem isNonnegative_of_le {lo value : Double} (lower : lo.isNonnegative = true)
    (above : lo.le value = true) : value.isNonnegative = true := by
  cases lo with
  | nan => cases lower
  | infinite sign =>
      cases isNonnegative_infinite.mp lower
      cases value with
      | nan | finite negative units fits => cases above
      | infinite negative => cases negative <;> first | rfl | cases above
  | finite sign count countFits =>
      cases value with
      | nan => cases above
      | infinite negative => cases negative <;> first | rfl | cases above
      | finite negative units fits =>
          have bound := signedUnits_nonneg.mpr (isNonnegative_finite.mp lower)
          exact isNonnegative_finite.mpr
            (signedUnits_nonneg.mp (Int.le_trans bound (le_finite.mp above)))

theorem not_lt_of_le {x y : Double} (ordered : x.le y = true) : y.lt x = false := by
  cases x with
  | nan => cases ordered
  | infinite a =>
      cases y with
      | nan => cases ordered
      | infinite b => cases a <;> cases b <;> first | rfl | cases ordered
      | finite b v otherFits => cases a <;> first | rfl | cases ordered
  | finite a u fits =>
      cases y with
      | nan => cases ordered
      | infinite b => cases b <;> first | rfl | cases ordered
      | finite b v otherFits => exact decide_eq_false (Int.not_lt_of_ge (le_finite.mp ordered))

theorem lt_of_le_of_lt {x y z : Double} (first : x.le y = true) (second : y.lt z = true) :
    x.lt z = true := by
  cases y with
  | nan => cases second
  | infinite b =>
      -- Nothing is above infinity, and only its opposite is no larger than that.
      cases b with
      | false => cases z <;> cases second
      | true =>
          cases x with
          | nan | finite a u fits => cases first
          | infinite a =>
              cases a with
              | false => cases first
              | true => exact second
  | finite b v fits =>
      cases x with
      | nan => cases first
      | infinite a =>
          cases a with
          | false => cases first
          | true => cases z <;> first | exact second | rfl
      | finite a u lowerFits =>
          cases z with
          | nan => cases second
          | infinite c => exact second
          | finite c w upperFits =>
              have lower := le_finite.mp first
              have upper : signedUnits b v < signedUnits c w := of_decide_eq_true second
              exact decide_eq_true (Int.lt_of_le_of_lt lower upper)

theorem exists_of_isNonnegative {value : Double} (nonnegative : value.isNonnegative = true)
    (isFinite : value.isFinite = true) (signless : value ≠ zero true) :
    ∃ units fits, value = finite false units fits := by
  cases value with
  | nan | infinite negative => cases isFinite
  | finite negative units fits =>
      cases negative with
      | false => exact ⟨units, fits, rfl⟩
      | true =>
          cases isNonnegative_finite.mp nonnegative rfl
          exact absurd rfl signless

end CExpr.Double
