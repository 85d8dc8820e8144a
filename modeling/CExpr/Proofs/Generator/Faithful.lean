import CExpr.Proofs.Generator.Stopping

/-!
Sources that give no answer but what they were asked for: the index of a positive weight, a bit of the
mask, a number of the range, and a side of the coin that can come up. Over an engine whose numbers are
where they are asked for a source is faithful, however its doubles are rounded.
-/
namespace CExpr

/-- An engine whose numbers are where they are asked for. What it makes of bounds for doubles that
are infinite or below zero does not matter. -/
structure Engine.Bounded {σ : Type} (engine : Engine σ) : Prop extends engine.Lawful where
  unit (s : σ) : (engine.unit s).1.IsUnit
  real (s : σ) {lo hi : Double} (lower : lo.isNonnegative = true) (upper : hi.isFinite = true)
    (ordered : lo.le hi = true) :
    lo.le (engine.real lo hi s).1 = true ∧ (engine.real lo hi s).1.le hi = true

structure Source.Faithful {σ : Type} (source : Source σ) : Prop where
  choice {weights : List Double} {s after : σ} {index : Int} :
    source.choice weights s = (.ok index, after) →
      ∃ place weight, index = (place : Nat) ∧ weights[place]? = some weight ∧
        weight.isPositive = true
  bit {mask : Mask} {s after : σ} {index : Int} :
    source.bit mask s = (.ok index, after) →
      ∃ place : Nat, index = place ∧ place < mask.vocabulary.width ∧ mask.test place = true
  integer {lo hi : Int} {s after : σ} {value : Int} :
    source.integer lo hi s = (.ok value, after) → lo ≤ value ∧ value ≤ hi
  real {lo hi : Double} {s after : σ} {value : Double} : lo.isNonnegative = true →
    hi.isFinite = true → lo.le hi = true → source.real lo hi s = (.ok value, after) →
      lo.le value = true ∧ value.le hi = true
  heads {probability : Double} {s after : σ} :
    source.coin probability s = (.ok true, after) → probability.equals (.zero false) = false
  tails {probability : Double} {s after : σ} :
    source.coin probability s = (.ok false, after) → probability.equals .one = false

namespace Double

theorem le_self {x : Double} (number : x.isNonnegative = true) : x.le x = true := by
  cases x with
  | nan => cases number
  | infinite negative => cases negative <;> rfl
  | finite negative units fits => exact le_finite.mpr (Int.le_refl _)

theorem lt_of_equals {x y : Double} (same : x.equals y = true) (value : Double) :
    value.lt x = value.lt y := by
  cases x with
  | nan => cases same
  | infinite a =>
      cases y with
      | nan | finite b v otherFits => cases same
      | infinite b => rw [beq_iff_eq.mp same]
  | finite a u fits =>
      cases y with
      | nan | infinite b => cases same
      | finite b v otherFits =>
          have count : signedUnits a u = signedUnits b v := beq_iff_eq.mp same
          cases value with
          | nan | infinite c => rfl
          | finite c w lastFits => rw [lt, lt, count]

theorem mul_lt_zero {x y : Double} (first : x.isNonnegative = true)
    (second : y.isNonnegative = true) : (x.mul y).lt (zero false) = false := by
  cases x with
  | nan => cases first
  | infinite a =>
      cases isNonnegative_infinite.mp first
      cases y with
      | nan => cases second
      | infinite b =>
          cases isNonnegative_infinite.mp second
          rfl
      | finite b v otherFits =>
          rw [mul]
          by_cases null : v = 0
          · rw [if_pos null]
            rfl
          · rw [if_neg null, sign_of_isNonnegative second null]
            rfl
  | finite a u fits =>
      cases y with
      | nan => cases second
      | infinite b =>
          cases isNonnegative_infinite.mp second
          rw [mul]
          by_cases null : u = 0
          · rw [if_pos null]
            rfl
          · rw [if_neg null, sign_of_isNonnegative first null]
            rfl
      | finite b v otherFits =>
          apply not_lt_of_le
          rw [mul]
          apply ofUnits_isNonnegative
          -- Signs that differ are those of a zero.
          intro signs
          cases a with
          | true => rw [isNonnegative_finite.mp first rfl, Nat.zero_mul]
          | false =>
              have sign : b = true := by simpa using signs
              rw [isNonnegative_finite.mp second sign, Nat.mul_zero]

end Double

namespace Engine

variable {σ : Type} {engine : Engine σ} {s after : σ}

theorem choice_faithful (bounded : engine.Bounded) {weights : List Double} {index : Int}
    (returned : engine.source.choice weights s = (.ok index, after)) :
    ∃ place weight, index = (place : Nat) ∧ weights[place]? = some weight ∧
      weight.isPositive = true := by
  obtain ⟨nonnegative, total⟩ := isPositive_of_choice returned
  rw [choice_of_isPositive nonnegative total] at returned
  cases returned
  have above := Double.mul_lt_zero (bounded.unit s).1 (Double.sum_isNonnegative nonnegative)
  obtain ⟨weight, stands, positive⟩ := indexAt_isPositive nonnegative above
    ((Double.sum_isPositive_iff nonnegative).mp total)
  exact ⟨_, weight, rfl, stands, positive⟩

theorem bit_faithful (bounded : engine.Bounded) {mask : Mask} {index : Int}
    (returned : engine.source.bit mask s = (.ok index, after)) :
    ∃ place : Nat, index = place ∧ place < mask.vocabulary.width ∧ mask.test place = true := by
  by_cases empty : mask.isEmpty = true
  · obtain ⟨place, middle, picked, _⟩ := Draw.bind_eq_ok.mp returned
    rw [pickBit, if_pos empty] at picked
    cases picked
  · obtain ⟨answer, _, drawn, place, same, inside⟩ := bit_answers bounded.toLawful mask
      (fun _ => Bool.eq_false_iff.mpr empty) s
    cases returned.symm.trans drawn
    exact ⟨place, Except.ok.inj same, inside⟩

theorem integer_faithful (bounded : engine.Bounded) {lo hi value : Int}
    (returned : engine.source.integer lo hi s = (.ok value, after)) : lo ≤ value ∧ value ≤ hi := by
  by_cases empty : hi < lo
  · have refused : engine.source.integer lo hi = .fail (.emptyIntegerRange lo hi) := if_pos empty
    rw [refused] at returned
    cases returned
  · obtain ⟨answer, _, drawn, found, same, inside⟩ := integer_answers bounded.toLawful lo hi
      (fun _ => Int.not_lt.mp empty) s
    cases returned.symm.trans drawn
    cases same
    exact inside

theorem real_faithful (bounded : engine.Bounded) {lo hi value : Double}
    (lower : lo.isNonnegative = true) (upper : hi.isFinite = true) (ordered : lo.le hi = true)
    (returned : engine.source.real lo hi s = (.ok value, after)) :
    lo.le value = true ∧ value.le hi = true := by
  have granted : engine.source.real lo hi = take (engine.real lo hi) :=
    if_neg (Bool.eq_false_iff.mp (Double.not_lt_of_le ordered))
  rw [granted] at returned
  cases returned
  exact bounded.real s lower upper ordered

theorem side_of_coin {probability : Double} {side : Bool}
    (returned : engine.source.coin probability s = (.ok side, after)) :
    (engine.unit s).1.lt probability = side := by
  by_cases within : Config.isProbability probability = true
  · have granted : engine.source.coin probability =
        take engine.unit >>= fun unit => pure (unit.lt probability) := if_pos within
    rw [granted] at returned
    cases returned
    rfl
  · have refused : engine.source.coin probability = .fail (.notProbability probability) :=
      if_neg within
    rw [refused] at returned
    cases returned

theorem Bounded.faithful (bounded : engine.Bounded) : engine.source.Faithful where
  choice := choice_faithful bounded
  bit := bit_faithful bounded
  integer := integer_faithful bounded
  real := real_faithful bounded
  heads := by
    intro probability s after returned
    have side := side_of_coin returned
    apply Bool.eq_false_iff.mpr
    intro null
    rw [Double.lt_of_equals null, Double.not_lt_of_le (bounded.unit s).1] at side
    cases side
  tails := by
    intro probability s after returned
    have side := side_of_coin returned
    apply Bool.eq_false_iff.mpr
    intro sure
    rw [Double.lt_of_equals sure, (bounded.unit s).2] at side
    cases side

theorem constant_bounded {unit : Double} (fraction : unit.IsUnit) :
    (Engine.constant unit).Bounded where
  unit _ := fraction
  integer _ _ _ ordered := ⟨Int.le_refl _, ordered⟩
  real _ _ _ lower _ ordered := ⟨Double.le_self lower, ordered⟩

end Engine
end CExpr
