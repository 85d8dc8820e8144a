import CExpr.Proofs.Double.Total
import CExpr.Config.Basic

/-!
What a configuration that passed its check can be relied on for: the ranges of the constants, the
operators, the probabilities, and the weights with which every run begins.
-/
namespace CExpr
namespace Config

variable {config : Config}

/-- A weight table with an entry for every kind, none of them negative and none of them growing. -/
structure LegalTable (config : Config) (table : WeightTable) : Prop where
  complete : (table.entries config).length = table.vocabulary.width
  nonnegative : ∀ entry ∈ table.entries config, entry.initial.isNonnegative = true
  dampens : ∀ entry ∈ table.entries config, isDampening entry.dampening = true
  positive : noneIsPositive (table.entries config) = false

structure Legal (config : Config) : Prop where
  integerMin_nonneg : 0 ≤ config.integerMin
  integers : config.integerMin ≤ config.integerMax
  integerMax_le : config.integerMax ≤ integerLimit
  doubleMin_finite : config.doubleMin.isFinite = true
  doubleMax_finite : config.doubleMax.isFinite = true
  doubleMin_nonneg : config.doubleMin.isNonnegative = true
  doubles : config.doubleMin.le config.doubleMax = true
  binOps : config.binOps.vocabulary = .binOp ∧ config.binOps.isEmpty = false
  unOps : config.unOps.vocabulary = .unOp ∧ config.unOps.isEmpty = false
  probabilities : isProbability config.parenthesize = true ∧ isProbability config.const = true ∧
    isProbability config.volatile = true
  exprKinds : config.LegalTable .exprKinds
  typeKinds : config.LegalTable .typeKinds
  leaves : noneIsPositive ((ExprKind.all.filter (!·.isRecursive)).map config.exprKind) = false

theorem problemIf_eq_none {condition : Bool} {problem : ConfigProblem} :
    problemIf condition problem = none ↔ condition = false := by
  cases condition <;> simp [problemIf]

theorem orElse_eq_none {α : Type} {first second : Option α} :
    (first <|> second) = none ↔ first = none ∧ second = none := by
  cases first <;> simp

theorem kindProblem?_eq_none {table : WeightTable} {kind : String} {weight : KindWeight} :
    kindProblem? table kind weight = none ↔
      weight.initial.isNonnegative = true ∧ isDampening weight.dampening = true := by
  simp [kindProblem?, problemIf_eq_none]

theorem memberNames_length (table : WeightTable) :
    table.vocabulary.memberNames.length = table.vocabulary.width := by
  cases table <;> rfl

theorem kindProblems_eq_none {table : WeightTable}
    (complete : (table.entries config).length = table.vocabulary.width) :
    ((table.vocabulary.memberNames.zip (table.entries config)).findSome? fun (kind, weight) =>
        kindProblem? table kind weight) = none ↔
      ∀ entry ∈ table.entries config,
        entry.initial.isNonnegative = true ∧ isDampening entry.dampening = true := by
  -- A table as long as the vocabulary loses no entry when it is paired with the names.
  have entries : (table.vocabulary.memberNames.zip (table.entries config)).map Prod.snd =
      table.entries config :=
    List.map_snd_zip (Nat.le_of_eq (complete.trans (memberNames_length table).symm))
  rw [List.findSome?_eq_none_iff]
  constructor
  · intro unproblematic entry member
    rw [← entries] at member
    obtain ⟨⟨kind, weight⟩, paired, rfl⟩ := List.mem_map.mp member
    exact kindProblem?_eq_none.mp (unproblematic _ paired)
  · rintro legal ⟨kind, weight⟩ paired
    exact kindProblem?_eq_none.mpr (legal weight (List.of_mem_zip paired).2)

theorem tableProblem?_eq_none {table : WeightTable} :
    config.tableProblem? table = none ↔ config.LegalTable table := by
  simp only [tableProblem?, orElse_eq_none, problemIf_eq_none, ne_eq, decide_not,
    Bool.not_eq_false', decide_eq_true_eq]
  constructor
  · rintro ⟨complete, unproblematic, positive⟩
    have legal := (kindProblems_eq_none complete).mp unproblematic
    exact ⟨complete, fun entry member => (legal entry member).1,
      fun entry member => (legal entry member).2, positive⟩
  · rintro ⟨complete, nonnegative, dampens, positive⟩
    exact ⟨complete, (kindProblems_eq_none complete).mpr fun entry member =>
      ⟨nonnegative entry member, dampens entry member⟩, positive⟩

/-- The check finds no problem exactly in the configurations that are legal in every respect. -/
theorem problem?_eq_none : config.problem? = none ↔ config.Legal := by
  simp only [problem?, orElse_eq_none, tableProblem?_eq_none, integerProblem?, doubleProblem?,
    maskProblem?, probabilityProblem?, leafProblem?, problemIf_eq_none, Bool.not_eq_false',
    Bool.and_eq_true, Bool.or_eq_false_iff, decide_eq_true_eq, decide_eq_false_iff_not, ne_eq,
    Decidable.not_not]
  constructor
  · rintro ⟨⟨⟨lower, ordered⟩, upper⟩, ⟨minFinite, maxFinite, minNonneg, doubles⟩,
      ⟨binOps, unOps⟩, ⟨parenthesize, const, volatile⟩, exprKinds, typeKinds, leaves⟩
    exact ⟨lower, ordered, upper, minFinite, maxFinite, minNonneg, doubles, binOps, unOps,
      ⟨parenthesize, const, volatile⟩, exprKinds, typeKinds, leaves⟩
  · rintro ⟨lower, ordered, upper, minFinite, maxFinite, minNonneg, doubles, binOps, unOps,
      ⟨parenthesize, const, volatile⟩, exprKinds, typeKinds, leaves⟩
    exact ⟨⟨⟨lower, ordered⟩, upper⟩, ⟨minFinite, maxFinite, minNonneg, doubles⟩,
      ⟨binOps, unOps⟩, ⟨parenthesize, const, volatile⟩, exprKinds, typeKinds, leaves⟩

theorem default_valid : default.problem? = none := by decide +kernel

theorem noneIsPositive_eq_false_iff {weights : List KindWeight}
    (nonnegative : ∀ entry ∈ weights, entry.initial.isNonnegative = true) :
    noneIsPositive weights = false ↔ ∃ entry ∈ weights, entry.initial.isPositive = true := by
  have initials : ∀ weight ∈ weights.map (·.initial), weight.isNonnegative = true :=
    List.forall_mem_map.mpr nonnegative
  have sum : noneIsPositive weights = false ↔
      (Double.sum (weights.map (·.initial))).isPositive = true := by
    rw [noneIsPositive, ← Bool.not_eq_true, Double.le_zero_iff (Double.sum_isNonnegative initials),
      Bool.not_eq_false]
  rw [sum, Double.sum_isPositive_iff initials]
  constructor
  · rintro ⟨_, member, positive⟩
    obtain ⟨entry, within, rfl⟩ := List.mem_map.mp member
    exact ⟨entry, within, positive⟩
  · rintro ⟨entry, within, positive⟩
    exact ⟨_, List.mem_map_of_mem within, positive⟩

namespace LegalTable

variable (legal : config.LegalTable .exprKinds)
include legal

theorem exprKinds_getElem? (kind : ExprKind) :
    config.exprKinds[kind.index.val]? = some (config.exprKind kind) := by
  have bound : kind.index.val < config.exprKinds.length :=
    Nat.lt_of_lt_of_eq kind.index.isLt legal.complete.symm
  rw [exprKind, List.getElem?_eq_getElem bound, Option.getD_some]

theorem exprKind_mem (kind : ExprKind) : config.exprKind kind ∈ config.exprKinds :=
  List.mem_of_getElem? (legal.exprKinds_getElem? kind)

theorem exists_leaf_iff :
    noneIsPositive ((ExprKind.all.filter (!·.isRecursive)).map config.exprKind) = false ↔
      ∃ kind : ExprKind, kind.isRecursive = false ∧
        (config.exprKind kind).initial.isPositive = true := by
  have nonnegative : ∀ entry ∈ (ExprKind.all.filter (!·.isRecursive)).map config.exprKind,
      entry.initial.isNonnegative = true :=
    List.forall_mem_map.mpr fun kind _ => legal.nonnegative _ (legal.exprKind_mem kind)
  rw [noneIsPositive_eq_false_iff nonnegative]
  constructor
  · rintro ⟨_, member, positive⟩
    obtain ⟨kind, leaf, rfl⟩ := List.mem_map.mp member
    exact ⟨kind, by simpa using (List.mem_filter.mp leaf).2, positive⟩
  · rintro ⟨kind, plain, positive⟩
    have leaf : kind ∈ ExprKind.all.filter (!·.isRecursive) :=
      List.mem_filter.mpr ⟨kind.mem_all, by rw [plain]; rfl⟩
    exact ⟨_, List.mem_map_of_mem leaf, positive⟩

end LegalTable

theorem Legal.exprKind_mem (legal : config.Legal) (kind : ExprKind) :
    config.exprKind kind ∈ config.exprKinds := legal.exprKinds.exprKind_mem kind

theorem Legal.exists_leaf (legal : config.Legal) :
    ∃ kind : ExprKind, kind.isRecursive = false ∧
      (config.exprKind kind).initial.isPositive = true :=
  legal.exprKinds.exists_leaf_iff.mp legal.leaves

theorem Legal.dampens (legal : config.Legal) (kind : ExprKind) :
    isDampening (config.exprKind kind).dampening = true :=
  legal.exprKinds.dampens _ (legal.exprKind_mem kind)

end Config

theorem ValidConfig.legal (config : ValidConfig) : config.val.Legal :=
  Config.problem?_eq_none.mp config.property

end CExpr
