import CExpr.Draw.Sources
import CExpr.Proofs.Draw.Choice

/-!
A weighted choice as a function of the number that is drawn for it. Weights that cannot be drawn by are
refused before there is a number. Otherwise a single number decides: it leads to a positive weight, a
larger number leads to the same weight or a later one, and so each index belongs to one interval.
-/
namespace CExpr

def indexFor (weights : List Double) (unit : Double) : Nat :=
  indexAt weights (unit.mul (Double.sum weights))

section Index

variable {weights : List Double} {unit low middle high : Double}

theorem Double.mul_lt_zero_of_isUnit {total : Double} (fraction : unit.IsUnit)
    (positive : total.isPositive = true) : (unit.mul total).lt (zero false) = false := by
  cases finite : total.isFinite with
  | true =>
      have above := mul_le_mul_of_isUnit zero_isUnit fraction fraction.1 positive finite
      rw [zero_mul_of_isFinite finite positive] at above
      exact not_lt_of_le above
  | false =>
      rw [eq_infinite_of_isPositive positive finite]
      exact lt_of_isUnit_mul_infinite fraction _

theorem indexFor_isPositive (nonnegative : ∀ weight ∈ weights, weight.isNonnegative = true)
    (positive : (Double.sum weights).isPositive = true) (fraction : unit.IsUnit) :
    ∃ weight, weights[indexFor weights unit]? = some weight ∧ weight.isPositive = true :=
  indexAt_isPositive nonnegative (Double.mul_lt_zero_of_isUnit fraction positive)
    ((Double.sum_isPositive_iff nonnegative).mp positive)

theorem indexFor_mono (nonnegative : ∀ weight ∈ weights, weight.isNonnegative = true)
    (positive : (Double.sum weights).isPositive = true) (lower : low.IsUnit) (upper : high.IsUnit)
    (ordered : low.le high = true) : indexFor weights low ≤ indexFor weights high := by
  have exceeding := (Double.sum_isPositive_iff nonnegative).mp positive
  cases finite : (Double.sum weights).isFinite with
  | true =>
      have products := Double.mul_le_mul_of_isUnit lower upper ordered positive finite
      exact indexAt_mono nonnegative (Double.mul_lt_zero_of_isUnit lower positive) products exceeding
  | false =>
      -- No running sum exceeds a fraction of infinity, so both fall on the last positive weight.
      have last : ∀ unit : Double, unit.IsUnit →
          lastPositive? weights = some (indexFor weights unit) := by
        intro unit fraction
        rw [indexFor, Double.eq_infinite_of_isPositive positive finite]
        exact indexAt_beyond (Double.lt_of_isUnit_mul_infinite fraction) exceeding
      have same := (last low lower).symm.trans (last high upper)
      exact Nat.le_of_eq (Option.some.inj same)

theorem Double.isUnit_of_le (lower : low.IsUnit) (upper : high.IsUnit) (above : low.le middle = true)
    (below : middle.le high = true) : middle.IsUnit :=
  ⟨isNonnegative_of_le lower.1 above, lt_of_le_of_lt below upper.2⟩

/-- Between two numbers that lead to one weight there is none that leads to another. -/
theorem indexFor_between (nonnegative : ∀ weight ∈ weights, weight.isNonnegative = true)
    (positive : (Double.sum weights).isPositive = true) (lower : low.IsUnit) (upper : high.IsUnit)
    (above : low.le middle = true) (below : middle.le high = true)
    (same : indexFor weights low = indexFor weights high) :
    indexFor weights middle = indexFor weights low := by
  have inside := Double.isUnit_of_le lower upper above below
  have first := indexFor_mono nonnegative positive lower inside above
  have second := indexFor_mono nonnegative positive inside upper below
  omega

end Index

namespace Engine

/-- Weights of which one is negative or no number are refused, and so are weights whose sum is not
positive; no number is taken then. By all other weights one number is taken, and it leads to a positive
weight whatever the rounding, a larger one to none before it. -/
theorem weightedChoice_monotone (weights : List Double) :
    ((∃ weight ∈ weights, weight.isNonnegative = false) →
      ∀ (σ : Type) (engine : Engine σ) (s : σ) (calls : List EngineCall),
        engine.watched.weightedChoice weights (s, calls) =
          (.error (.negativeWeight weights), s, calls)) ∧
    ((∀ weight ∈ weights, weight.isNonnegative = true) → (Double.sum weights).isPositive = false →
      ∀ (σ : Type) (engine : Engine σ) (s : σ) (calls : List EngineCall),
        engine.watched.weightedChoice weights (s, calls) = (.error .noPositiveWeight, s, calls)) ∧
    ((∀ weight ∈ weights, weight.isNonnegative = true) → (Double.sum weights).isPositive = true →
      (∀ (σ : Type) (engine : Engine σ) (s : σ) (calls : List EngineCall),
        engine.watched.weightedChoice weights (s, calls) =
          (.ok (indexFor weights (engine.unit s).1), (engine.unit s).2, calls ++ [.unit])) ∧
      (∀ unit : Double, unit.IsUnit →
        ∃ weight, weights[indexFor weights unit]? = some weight ∧ weight.isPositive = true) ∧
      (∀ low high : Double, low.IsUnit → high.IsUnit → low.le high = true →
        indexFor weights low ≤ indexFor weights high) ∧
      ∀ low middle high : Double, low.IsUnit → high.IsUnit → low.le middle = true →
        middle.le high = true → indexFor weights low = indexFor weights high →
          indexFor weights middle = indexFor weights low) := by
  refine ⟨?_, ?_, ?_⟩
  · intro illegal σ engine s calls
    rw [weightedChoice_of_negative illegal]
    rfl
  · intro nonnegative small σ engine s calls
    rw [weightedChoice_of_sum nonnegative small]
    rfl
  · intro nonnegative positive
    refine ⟨?_, fun _ fraction => indexFor_isPositive nonnegative positive fraction,
      fun _ _ => indexFor_mono nonnegative positive,
      fun _ _ _ => indexFor_between nonnegative positive⟩
    intro σ engine s calls
    rw [weightedChoice_of_isPositive nonnegative positive]
    rfl

/-- Zeros of both signs around two weights: no number leads to one of the zeros. -/
theorem weightedChoice_monotone_zeros :
    let weights : List Double := [.zero true, .one, .zero false, .ofInt 2, .zero false]
    (∀ weight ∈ weights, weight.isNonnegative = true) ∧ (Double.sum weights).isPositive = true ∧
      ∀ unit : Double, unit.IsUnit → indexFor weights unit = 1 ∨ indexFor weights unit = 3 := by
  intro weights
  have nonnegative : ∀ weight ∈ weights, weight.isNonnegative = true := by decide +kernel
  have positive : (Double.sum weights).isPositive = true := by decide +kernel
  refine ⟨nonnegative, positive, fun unit fraction => ?_⟩
  obtain ⟨weight, stands, chosen⟩ :=
    ((weightedChoice_monotone weights).2.2 nonnegative positive).2.1 unit fraction
  have places : ∀ place < 5, ∀ weight ∈ weights[place]?, weight.isPositive = true →
      place = 1 ∨ place = 3 := by decide +kernel
  exact places _ (List.getElem?_eq_some_iff.mp stands).1 weight stands chosen

end Engine
end CExpr
