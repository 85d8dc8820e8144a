import CExpr.Proofs.Config.Stepwise

/-!
What a configuration is good for once it has passed its check, in terms of its numbers alone; and what a
document makes of such a configuration: another one that is just as good, or a reason to refuse the
document, and nothing else.
-/
namespace CExpr
open Json (Value)

namespace Config

def InUnit (value : Double) : Prop := (Double.zero false).le value = true ∧ value.le .one = true

structure UsableTable (count : Nat) (weights : List KindWeight) : Prop where
  length : weights.length = count
  initial : ∀ entry ∈ weights, entry.initial ≠ .nan ∧ (Double.zero false).le entry.initial = true
  dampening : ∀ entry ∈ weights,
    (Double.zero false).lt entry.dampening = true ∧ entry.dampening.le .one = true
  positive : ∃ entry ∈ weights, (Double.zero false).lt entry.initial = true

structure Usable (config : Config) : Prop where
  integers : 0 ≤ config.integerMin ∧ config.integerMin ≤ config.integerMax ∧
    config.integerMax ≤ 2 ^ 64 - 1
  finite : config.doubleMin.isFinite = true ∧ config.doubleMax.isFinite = true
  doubles : (Double.zero false).le config.doubleMin = true ∧
    config.doubleMin.le config.doubleMax = true
  binOps : config.binOps.vocabulary = .binOp ∧ config.binOps.bits ≠ 0 ∧
    config.binOps.bits < 2 ^ BinOp.all.length
  unOps : config.unOps.vocabulary = .unOp ∧ config.unOps.bits ≠ 0 ∧
    config.unOps.bits < 2 ^ UnOp.all.length
  parenthesize : InUnit config.parenthesize
  const : InUnit config.const
  volatile : InUnit config.volatile
  exprKinds : UsableTable ExprKind.all.length config.exprKinds
  typeKinds : UsableTable TypeKind.all.length config.typeKinds
  leaf : ∃ (kind : ExprKind) (entry : KindWeight), kind.isRecursive = false ∧
    config.exprKinds[kind.index.val]? = some entry ∧ (Double.zero false).lt entry.initial = true

variable {config : Config}

theorem inUnit_iff {value : Double} : isProbability value = true ↔ InUnit value := by
  rw [isProbability, Bool.and_eq_true]
  rfl

theorem legalTable_iff {table : WeightTable} :
    config.LegalTable table ↔ UsableTable table.vocabulary.width (table.entries config) := by
  constructor
  · rintro ⟨complete, nonnegative, dampens, positive⟩
    refine ⟨complete, fun entry member => ⟨?_, nonnegative entry member⟩, ?_, ?_⟩
    · rintro same
      have legal := nonnegative entry member
      rw [same] at legal
      cases legal
    · exact fun entry member => Bool.and_eq_true_iff.mp (dampens entry member)
    · exact (noneIsPositive_eq_false_iff nonnegative).mp positive
  · rintro ⟨length, initial, dampening, positive⟩
    have nonnegative := fun entry member => (initial entry member).2
    exact ⟨length, nonnegative, fun entry member => Bool.and_eq_true_iff.mpr (dampening entry member),
      (noneIsPositive_eq_false_iff nonnegative).mpr positive⟩

theorem mask_iff {mask : Mask} {vocabulary : Vocabulary} :
    mask.vocabulary = vocabulary ∧ mask.isEmpty = false ↔
      mask.vocabulary = vocabulary ∧ mask.bits ≠ 0 ∧ mask.bits < 2 ^ vocabulary.width := by
  constructor
  · rintro ⟨rfl, nonempty⟩
    exact ⟨rfl, of_decide_eq_false nonempty, mask.fits⟩
  · rintro ⟨rfl, nonempty, _⟩
    exact ⟨rfl, decide_eq_false nonempty⟩

/-- A configuration is usable exactly if its check finds no problem. -/
theorem usable_iff : config.Usable ↔ config.problem? = none := by
  rw [problem?_eq_none]
  constructor
  · intro usable
    have exprKinds : config.LegalTable .exprKinds := legalTable_iff.mpr usable.exprKinds
    obtain ⟨kind, entry, plain, found, positive⟩ := usable.leaf
    rw [exprKinds.exprKinds_getElem? kind] at found
    cases found
    exact {
      integerMin_nonneg := usable.integers.1
      integers := usable.integers.2.1
      integerMax_le := usable.integers.2.2
      doubleMin_finite := usable.finite.1
      doubleMax_finite := usable.finite.2
      doubleMin_nonneg := usable.doubles.1
      doubles := usable.doubles.2
      binOps := mask_iff.mpr usable.binOps
      unOps := mask_iff.mpr usable.unOps
      probabilities := ⟨inUnit_iff.mpr usable.parenthesize, inUnit_iff.mpr usable.const,
        inUnit_iff.mpr usable.volatile⟩
      exprKinds := exprKinds
      typeKinds := legalTable_iff.mpr usable.typeKinds
      leaves := exprKinds.exists_leaf_iff.mpr ⟨kind, plain, positive⟩ }
  · intro legal
    obtain ⟨kind, plain, positive⟩ := legal.exists_leaf
    exact {
      integers := ⟨legal.integerMin_nonneg, legal.integers, legal.integerMax_le⟩
      finite := ⟨legal.doubleMin_finite, legal.doubleMax_finite⟩
      doubles := ⟨legal.doubleMin_nonneg, legal.doubles⟩
      binOps := mask_iff.mp legal.binOps
      unOps := mask_iff.mp legal.unOps
      parenthesize := inUnit_iff.mp legal.probabilities.1
      const := inUnit_iff.mp legal.probabilities.2.1
      volatile := inUnit_iff.mp legal.probabilities.2.2
      exprKinds := legalTable_iff.mp legal.exprKinds
      typeKinds := legalTable_iff.mp legal.typeKinds
      leaf := ⟨kind, config.exprKind kind, plain, legal.exprKinds.exprKinds_getElem? kind, positive⟩ }

theorem Legal.kept (legal : config.Legal) : Stepwise.Kept config := by
  have small : ∀ value : Int, 0 ≤ value → value ≤ integerLimit → Json.isShort value = true := by
    intro value nonneg bounded
    have limit : 2 ^ 64 ≤ 10 ^ Text.maxDigits := by decide +kernel
    refine Json.isShort_iff.mpr (Nat.lt_of_lt_of_le ?_ limit)
    unfold integerLimit at bounded
    omega
  exact ⟨legal.complete,
    small _ legal.integerMin_nonneg (Int.le_trans legal.integers legal.integerMax_le),
    small _ (Int.le_trans legal.integerMin_nonneg legal.integers) legal.integerMax_le⟩

/-- Whatever a document holds, as long as its integers are short: laid over a usable configuration step by
step, it is refused for a reason, or what comes out is usable, and this is what the overlay says. It is
not refused if every entry can be taken and what comes out is usable. -/
theorem overlay_usable (base : ValidConfig) (document : List (List Nat × Value))
    (short : (Value.object document).Short) :
    ((∃ e, Stepwise.overlay base.val document = .error (.refused e) ∧
        base.val.overlay document = .error e) ∨
      ∃ after : ValidConfig, Stepwise.overlay base.val document = .ok after.val ∧
        base.val.overlay document = .ok after ∧ after.val.Usable) ∧
    ∀ changed : Config, (∀ entry ∈ document, (ConfigField.ofKey? entry.1).isSome = true) →
      document.foldlM Overlay.setEntry base.val = .ok changed → changed.Usable →
        Stepwise.overlay base.val document = .ok changed := by
  have outcome := Stepwise.overlay_eq (ValidConfig.legal base).kept short
  constructor
  · cases laid : base.val.overlay document with
    | error e =>
        rw [laid] at outcome
        exact .inl ⟨e, outcome, rfl⟩
    | ok after =>
        rw [laid] at outcome
        exact .inr ⟨after, outcome, rfl, usable_iff.mpr after.property⟩
  · intro changed known taken usable
    let after : ValidConfig := ⟨changed, usable_iff.mp usable⟩
    have laid : base.val.overlay document = .ok after := overlay_eq_ok.mpr ⟨known, taken⟩
    rw [laid] at outcome
    exact outcome

/-- An integral double for a bound, tokens and a name for the masks, and a kind in another spelling. -/
theorem overlay_usable_mixed :
    let base : ValidConfig := ⟨.default, default_valid⟩
    let text := fun name : String => Value.text (Text.codePoints name.toList)
    let weights := Value.object [(Text.codePoints "BinaryExpr".toList,
      .object [(Overlay.initialKey, .integer 4)])]
    let document := [(Text.codePoints "int_const_max".toList, Value.number (.ofInt 255)),
      (Text.codePoints "bin_op_mask".toList, .list [text "+", text "-"]),
      (Text.codePoints "un_op_mask".toList, .list [text "neg"]),
      (Text.codePoints "expr_kind_weights".toList, weights)]
    (Value.object document).Short ∧ ∃ after : ValidConfig,
      Stepwise.overlay base.val document = .ok after.val ∧ base.val.overlay document = .ok after ∧
        after.val.Usable ∧ after.val.integerMax = 255 := by
  intro base text weights document
  have short : (Value.object document).Short := by
    intro value member
    rw [List.mem_singleton.mp member]
    decide
  have taken : ((base.val.overlay document).toOption.map (·.val.integerMax)) = some 255 := by
    decide +kernel
  refine ⟨short, ?_⟩
  rcases (overlay_usable base document short).1 with ⟨e, _, refused⟩ | ⟨after, steps, laid, usable⟩
  · rw [refused] at taken
    cases taken
  · rw [laid] at taken
    exact ⟨after, steps, laid, usable, Option.some.inj taken⟩

end Config
end CExpr
