import CExpr.Draw.Basic

/-!
Draws from uniform numbers. An engine yields numbers that are uniform over an interval, and the five
primitive draws follow from it. Every draw checks what it was asked before it takes a number, so a
refused draw leaves the engine as it was.
-/
namespace CExpr

structure Engine (σ : Type) where
  /-- A number from zero, included, to one, excluded. -/
  unit : σ → Double × σ
  integer : Int → Int → σ → Int × σ
  real : Double → Double → σ → Double × σ

def firstExceeding? (value : Double) : (running : Double) → List Double → Option Nat
  | _, [] => none
  | running, weight :: rest =>
    let running := running.add weight
    if value.lt running then some 0 else (firstExceeding? value running rest).map (· + 1)

def lastPositive? (weights : List Double) : Option Nat :=
  (weights.zipIdx.reverse.find? fun entry => entry.1.isPositive).map (·.2)

/-- The index that a value between zero and the sum of the weights falls on. Rounding can leave the
value at or past the last running sum; then the last positive weight has it. -/
def indexAt (weights : List Double) (value : Double) : Nat :=
  match firstExceeding? value (.zero false) weights with
  | some index => index
  | none => (lastPositive? weights).getD 0

namespace Engine

variable {σ : Type} (engine : Engine σ)

def take (step : σ → α × σ) : Draw σ α := fun s =>
  let (a, s) := step s
  (.ok a, s)

def weightedChoice (weights : List Double) : Draw σ Nat :=
  if weights.any (!·.isNonnegative) then .fail (.negativeWeight weights)
  else
    let total := Double.sum weights
    if total.le (.zero false) then .fail .noPositiveWeight
    else do
      let unit ← take engine.unit
      return indexAt weights (unit.mul total)

def pickBit (mask : Mask) : Draw σ Nat :=
  if mask.isEmpty then .fail .emptyMask
  else do
    let rank ← take (engine.integer 1 mask.count)
    match mask.select? rank with
    | some index => return index
    | none => .fail (.rankOutside rank mask.count)

def source : Source σ where
  choice weights := do return ((← engine.weightedChoice weights) : Nat)
  bit mask := do return ((← engine.pickBit mask) : Nat)
  integer lo hi := if hi < lo then .fail (.emptyIntegerRange lo hi) else take (engine.integer lo hi)
  real lo hi := if hi.lt lo then .fail (.emptyRealRange lo hi) else take (engine.real lo hi)
  coin probability :=
    if (Double.zero false).le probability && probability.le (.ofInt 1) then do
      return (← take engine.unit).lt probability
    else .fail (.notProbability probability)

end Engine
end CExpr
