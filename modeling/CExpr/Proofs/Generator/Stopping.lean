import CExpr.Proofs.Double.Product
import CExpr.Proofs.Draw.Lawful
import CExpr.Proofs.Generator.Places
import CExpr.Proofs.Weights.Legal

/-!
Whether a run can end. The weights at every place of a valid configuration have a positive sum, since
those of the kinds without operands are never dampened and one of them is positive. If the sum is
finite, the smallest number that an engine can yield chooses such a kind. If it is infinite, every
number chooses the last kind with a positive weight, which is one with operands as long as there is
any: an infinite weight for a constant keeps constants from being drawn.
-/
namespace CExpr

def Engine.constant (unit : Double) : Engine Unit where
  unit s := (unit, s)
  integer lo _ s := (lo, s)
  real lo _ s := (lo, s)

namespace ExprKind

theorem operands_eq_zero_iff (kind : ExprKind) : kind.operands = 0 ↔ kind.index.val ≤ 2 := by
  cases kind <;> decide

theorem isRecursive_eq_false_iff (kind : ExprKind) : kind.isRecursive = false ↔ kind.operands = 0 := by
  cases kind <;> decide

end ExprKind

namespace Config

variable {config : Config} {place : Place}

theorem weightsAt_getElem? (config : Config) (place : Place) (kind : ExprKind) :
    (config.weightsAt place)[kind.index.val]? = some (config.weightAt place kind) := by
  rw [weightsAt, List.getElem?_map, kind.all_getElem?_index]
  rfl

theorem weightAt_mem (config : Config) (place : Place) (kind : ExprKind) :
    config.weightAt place kind ∈ config.weightsAt place :=
  List.mem_of_getElem? (config.weightsAt_getElem? place kind)

theorem weightAt_isNonnegative (legal : config.Legal) (place : Place) (kind : ExprKind) :
    (config.weightAt place kind).isNonnegative = true := by
  have step : ∀ weight : Double, weight.isNonnegative = true →
      (place.foldl (fun weight above =>
        if above = kind then weight.mul (config.exprKind kind).dampening else weight)
        weight).isNonnegative = true := by
    induction place with
    | nil => exact fun _ start => start
    | cons above rest ih =>
        intro weight start
        apply ih
        dsimp only
        split
        · exact Double.mul_isNonnegative start (legal.dampens kind)
        · exact start
  exact step _ (legal.exprKinds.nonnegative _ (legal.exprKind_mem kind))

theorem weightsAt_isNonnegative (legal : config.Legal) (place : Place) :
    ∀ weight ∈ config.weightsAt place, weight.isNonnegative = true := by
  intro weight member
  obtain ⟨kind, _, rfl⟩ := List.mem_map.mp member
  exact weightAt_isNonnegative legal place kind

/-- Where only kinds with operands are above, some kind without operands has a positive weight. -/
theorem exists_positive_leaf (legal : config.Legal) (above : ∀ kind ∈ place, 0 < kind.operands) :
    ∃ kind : ExprKind, kind.operands = 0 ∧ (config.weightAt place kind).isPositive = true := by
  obtain ⟨kind, plain, positive⟩ := legal.exists_leaf
  have leaf := kind.isRecursive_eq_false_iff.mp plain
  have absent : kind ∉ place := fun member => Nat.ne_of_gt (above kind member) leaf
  exact ⟨kind, leaf, by rw [weightAt_of_not_mem absent]; exact positive⟩

theorem sum_weightsAt_isPositive (legal : config.Legal) (above : ∀ kind ∈ place, 0 < kind.operands) :
    (Double.sum (config.weightsAt place)).isPositive = true := by
  obtain ⟨kind, _, positive⟩ := exists_positive_leaf legal above
  exact (Double.sum_isPositive_iff (weightsAt_isNonnegative legal place)).mpr
    ⟨_, config.weightAt_mem place kind, positive⟩

/-- At a place some number that an engine can yield draws a kind without operands. -/
def CanStop (config : Config) (place : Place) : Prop :=
  ∃ unit : Double, unit.IsUnit ∧ ∃ kind : ExprKind, kind.operands = 0 ∧
    ((Engine.constant unit).source.choice (config.weightsAt place) ()).1 = .ok kind.index.val

theorem canStop_iff_indexAt (legal : config.Legal) (above : ∀ kind ∈ place, 0 < kind.operands) :
    config.CanStop place ↔ ∃ unit : Double, unit.IsUnit ∧
      indexAt (config.weightsAt place) (unit.mul (Double.sum (config.weightsAt place))) ≤ 2 := by
  have answer : ∀ unit, ((Engine.constant unit).source.choice (config.weightsAt place) ()).1 =
      .ok (indexAt (config.weightsAt place) (unit.mul (Double.sum (config.weightsAt place))) : Int) :=
    fun unit => congrArg Prod.fst (Engine.choice_of_isPositive (weightsAt_isNonnegative legal place)
      (sum_weightsAt_isPositive legal above))
  unfold CanStop
  constructor
  · rintro ⟨unit, fraction, kind, leaf, drawn⟩
    rw [answer unit] at drawn
    have same := Int.ofNat.inj (Except.ok.inj drawn)
    exact ⟨unit, fraction, same ▸ kind.operands_eq_zero_iff.mp leaf⟩
  · rintro ⟨unit, fraction, small⟩
    obtain ⟨kind, same⟩ := ExprKind.exists_index (Nat.lt_of_le_of_lt small (by decide))
    exact ⟨unit, fraction, kind, kind.operands_eq_zero_iff.mpr (same ▸ small), by rw [answer, same]⟩

/-- Where the sum is infinite, every number that an engine can yield chooses the last positive
weight. -/
theorem lastPositive?_of_infinite (legal : config.Legal) (above : ∀ kind ∈ place, 0 < kind.operands)
    (large : (Double.sum (config.weightsAt place)).isFinite = false) {unit : Double}
    (fraction : unit.IsUnit) :
    lastPositive? (config.weightsAt place) =
      some (indexAt (config.weightsAt place) (unit.mul (Double.sum (config.weightsAt place)))) := by
  obtain ⟨leaf, _, positive⟩ := exists_positive_leaf legal above
  rw [Double.eq_infinite_of_isPositive (sum_weightsAt_isPositive legal above) large]
  exact indexAt_beyond (Double.lt_of_isUnit_mul_infinite fraction)
    ⟨_, config.weightAt_mem place leaf, positive⟩

/-- A run can end at a place exactly if the sum of the weights there is finite, or else if no kind
with operands has a positive weight. -/
theorem canStop_iff (config : ValidConfig) (place : Place)
    (above : ∀ kind ∈ place, 0 < kind.operands) :
    config.val.CanStop place ↔
      (Double.sum (config.val.weightsAt place)).isFinite = true ∨
        ∀ kind : ExprKind, 0 < kind.operands → (config.val.weightAt place kind).isPositive = false := by
  have legal := ValidConfig.legal config
  rw [canStop_iff_indexAt legal above]
  by_cases isFinite : (Double.sum (config.val.weightsAt place)).isFinite = true
  · -- The smallest fraction falls on the first positive weight, which no weight of a leaf precedes.
    obtain ⟨leaf, plain, positive⟩ := exists_positive_leaf legal above
    refine iff_of_true ⟨.zero false, Double.zero_isUnit, ?_⟩ (.inl isFinite)
    rw [Double.zero_mul_of_isFinite isFinite (sum_weightsAt_isPositive legal above)]
    exact Nat.le_trans
      (indexAt_zero_le (weightsAt_isNonnegative legal place)
        (config.val.weightsAt_getElem? place leaf) positive)
      (leaf.operands_eq_zero_iff.mp plain)
  · have large := Bool.eq_false_iff.mpr isFinite
    rw [or_iff_right isFinite]
    constructor
    · rintro ⟨unit, fraction, small⟩ kind deep
      have behind : ¬ kind.index.val ≤ 2 := fun early =>
        Nat.ne_of_gt deep (kind.operands_eq_zero_iff.mpr early)
      exact (lastPositive?_eq_some (lastPositive?_of_infinite legal above large fraction)).2
        kind.index.val _ (by omega) (config.val.weightsAt_getElem? place kind)
    · intro shallow
      refine ⟨.zero false, Double.zero_isUnit, ?_⟩
      obtain ⟨⟨weight, stands, chosen⟩, _⟩ :=
        lastPositive?_eq_some (lastPositive?_of_infinite legal above large Double.zero_isUnit)
      obtain ⟨kind, same⟩ := ExprKind.exists_index (List.getElem?_eq_some_iff.mp stands).1
      rw [← same, config.val.weightsAt_getElem? place kind] at stands
      cases stands
      rw [← same, ← kind.operands_eq_zero_iff]
      apply Nat.eq_zero_of_not_pos
      intro deep
      exact Bool.false_ne_true ((shallow kind deep).symm.trans chosen)

/-- Below `+` and `-` the default weights leave room for a leaf. -/
theorem canStop_iff_default :
    let place : Place := [.binaryExpr, .unaryExpr]
    (∀ kind ∈ place, 0 < kind.operands) ∧ default.CanStop place :=
  ⟨by decide, (canStop_iff ⟨.default, default_valid⟩ [.binaryExpr, .unaryExpr] (by decide)).mpr
    (.inl (by decide +kernel))⟩

/-- An infinite weight for integer constants, and a positive one that is never dampened for kinds
with operands. -/
def endless : Config :=
  { default with
    exprKinds := [⟨.infinite false, .one⟩, ⟨.zero false, .one⟩, ⟨.zero false, .one⟩, ⟨.one, .one⟩,
      ⟨.zero false, .one⟩] }

theorem endless_valid : endless.problem? = none := by decide +kernel

/-- The check lets this configuration through, although no run of it gets beyond binary
expressions. -/
theorem not_forall_canStop : ¬ ∀ (config : ValidConfig) (place : Place),
    (∀ kind ∈ place, 0 < kind.operands) → config.val.CanStop place := by
  intro always
  have legal := ValidConfig.legal ⟨endless, endless_valid⟩
  have above : ∀ kind ∈ ([] : Place), 0 < kind.operands := List.forall_mem_nil _
  obtain ⟨unit, fraction, small⟩ :=
    (canStop_iff_indexAt legal above).mp (always ⟨endless, endless_valid⟩ [] above)
  have last := lastPositive?_of_infinite legal above (by decide +kernel) fraction
  have binary : lastPositive? (endless.weightsAt []) = some 3 := by decide +kernel
  have same := Option.some.inj (binary.symm.trans last)
  rw [← same] at small
  exact absurd small (by decide)

end Config
end CExpr
