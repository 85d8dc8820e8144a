import CExpr.Proofs.Expr.Nodes
import CExpr.Proofs.Generator.Faithful
import CExpr.Proofs.Generator.Image

/-!
Trees conform to the configuration they were drawn for. No kind is drawn whose initial weight is zero,
since dampening never makes a weight positive; operators, constants and the variable are those that
were asked for; and where parentheses are never tossed for, or always, it is known where they stand.
-/
namespace CExpr

namespace Double

theorem isPositive_of_mul {x factor : Double} (legal : x.isNonnegative = true)
    (dampens : Config.isDampening factor = true) (positive : (x.mul factor).isPositive = true) :
    x.isPositive = true := by
  apply eq_true_of_ne_false
  intro small
  obtain ⟨negative, rfl⟩ := eq_zero_of_not_isPositive legal small
  obtain ⟨units, fits, rfl, _⟩ := exists_of_isDampening dampens
  have null : 2 * (0 * units) < unitsPerOne := by
    rw [Nat.zero_mul]
    exact unitsPerOne_pos
  rw [zero, mul, ofUnits_eq_zero _ _ _ null] at positive
  cases negative <;> cases positive

end Double

theorem Config.isPositive_of_weightAt {config : Config} {place : Place} {kind : ExprKind}
    (legal : config.Legal) (positive : (config.weightAt place kind).isPositive = true) :
    (config.exprKind kind).initial.isPositive = true := by
  have start := legal.exprKinds.nonnegative _ (legal.exprKind_mem kind)
  unfold weightAt at positive
  generalize (config.exprKind kind).initial = weight at positive start ⊢
  induction place generalizing weight with
  | nil => exact positive
  | cons above rest ih =>
      rw [List.foldl_cons] at positive
      by_cases same : above = kind
      · rw [if_pos same] at positive
        have dampens := legal.dampens kind
        exact Double.isPositive_of_mul start dampens
          (ih _ positive (Double.mul_isNonnegative start dampens))
      · rw [if_neg same] at positive
        exact ih weight positive start

namespace Expr

def kind? : Expr → Option ExprKind
  | integer _ => some .integerConstant
  | double _ => some .doubleConstant
  | var _ => some .variableExpr
  | unary .. => some .unaryExpr
  | binary .. => some .binaryExpr
  | parens _ => none

def IsWithin (config : Config) (name : String) : Expr → Prop
  | integer value => config.integerMin ≤ value ∧ value ≤ config.integerMax
  | double value => config.doubleMin.le value = true ∧ value.le config.doubleMax = true
  | var other => other = name
  | unary op _ => config.unOps.contains (.ofUnOp op) = .ok true
  | binary op _ _ => config.binOps.contains (.ofBinOp op) = .ok true
  | parens _ => True

structure Allowed (config : Config) (name : String) (node : Expr) : Prop where
  drawn : ∀ kind ∈ node.kind?, (config.exprKind kind).initial.isPositive = true
  within : node.IsWithin config name

/-- Parentheses around an operand are needed for its grouping, and they are around a binary
expression. -/
def OnlyForced : Expr → Prop
  | unary _ operand => ∀ inner, operand = parens inner → UnOp.precedence < inner.precedence
  | binary op lhs rhs => (∀ inner, lhs = parens inner → op.precedence < inner.precedence) ∧
      ∀ inner, rhs = parens inner → op.precedence ≤ inner.precedence
  | parens inner => inner.kind? = some .binaryExpr
  | _ => True

def Alternates : Expr → Prop
  | unary _ operand => operand.isParens = true
  | binary _ lhs rhs => lhs.isParens = true ∧ rhs.isParens = true
  | parens inner => inner.isParens = false
  | _ => True

theorem allowed_of_kind {config : Config} {name : String} {node : Expr} {kind : ExprKind}
    (drawn : node.kind? = some kind) (positive : (config.exprKind kind).initial.isPositive = true)
    (within : node.IsWithin config name) : node.Allowed config name := by
  refine ⟨fun other same => ?_, within⟩
  cases drawn.symm.trans same
  exact positive

theorem allowed_parens (config : Config) (name : String) (inner : Expr) :
    (parens inner).Allowed config name := by
  constructor
  · intro kind drawn
    cases drawn
  · trivial

theorem onlyForced_parens {e : Expr} (loose : UnOp.precedence < e.precedence) :
    (parens e).OnlyForced := by
  cases e with
  | binary op lhs rhs => rfl
  | integer | double | var | parens => exact absurd loose (Nat.not_lt_zero _)
  | unary op operand => exact absurd loose (Nat.lt_irrefl _)

end Expr

theorem Mask.contains_of_test {mask : Mask} {member : Member}
    (same : member.vocabulary = mask.vocabulary) (inside : member.value < mask.vocabulary.width)
    (isSet : mask.test member.value = true) : mask.contains member = .ok true := by
  have bounds : 0 ≤ (member.value : Int) ∧ (member.value : Int) < mask.vocabulary.width := by omega
  rw [contains, if_pos same, bit, if_pos bounds, Int.toNat_natCast, isSet]

namespace Generator
open CExpr.Expr

variable {σ : Type} {source : Source σ} {config : Config} {name : String} {weights : Weights}
  {place : Place} {s after : σ} {tree bare : Expr}

/-! Every node is one that the configuration allows. -/
section Allowed

theorem Chooses.isPositive {kind : ExprKind} {dampened : Weights} (faithful : source.Faithful)
    (legal : config.Legal) (at_ : weights.IsAt config place)
    (chooses : Chooses source config weights s kind dampened after) :
    (config.exprKind kind).initial.isPositive = true := by
  obtain ⟨index, weight, same, stands, positive⟩ :=
    faithful.choice (Source.exprKind_eq_ok.mp chooses.drawn)
  cases Int.ofNat.inj same
  rw [at_.exprList, config.weightsAt_getElem? place kind] at stands
  cases stands
  exact Config.isPositive_of_weightAt legal positive

theorem binOp_allowed {op : BinOp} (faithful : source.Faithful) (legal : config.Legal)
    (picked : source.binOp config.binOps s = (.ok op, after)) :
    config.binOps.contains (.ofBinOp op) = .ok true := by
  obtain ⟨index, same, inside, isSet⟩ := faithful.bit (Source.binOp_eq_ok.mp picked)
  cases Int.ofNat.inj same
  exact Mask.contains_of_test legal.binOps.1.symm inside isSet

theorem unOp_allowed {op : UnOp} (faithful : source.Faithful) (legal : config.Legal)
    (picked : source.unOp config.unOps s = (.ok op, after)) :
    config.unOps.contains (.ofUnOp op) = .ok true := by
  obtain ⟨index, same, inside, isSet⟩ := faithful.bit (Source.unOp_eq_ok.mp picked)
  cases Int.ofNat.inj same
  exact Mask.contains_of_test legal.unOps.1.symm inside isSet

theorem Tosses.allowed (tosses : Tosses source config s bare tree after)
    (all : bare.EveryNode (Allowed config name)) : tree.EveryNode (Allowed config name) := by
  obtain ⟨coin, _, rfl⟩ := tosses
  exact everyNode_guarded all fun _ => allowed_parens config name bare

theorem Run.allowed (faithful : source.Faithful) (legal : config.Legal)
    (at_ : weights.IsAt config place) (run : Run source config name weights s tree after) :
    tree.EveryNode (Allowed config name) := by
  -- The weights below a node are those of a place further down, so the place is general.
  induction run generalizing place with
  | integer chooses number tosses =>
      have positive := chooses.isPositive faithful legal at_
      exact tosses.allowed (allowed_of_kind rfl positive (faithful.integer number))
  | double chooses number tosses =>
      have positive := chooses.isPositive faithful legal at_
      have inside := faithful.real legal.doubleMin_nonneg legal.doubleMax_finite legal.doubles number
      exact tosses.allowed (allowed_of_kind rfl positive inside)
  | var chooses tosses =>
      have positive := chooses.isPositive faithful legal at_
      exact tosses.allowed (allowed_of_kind rfl positive rfl)
  | binary chooses picked _ _ tosses left right =>
      have positive := chooses.isPositive faithful legal at_
      have below := at_.scale chooses.scaled
      have masked := binOp_allowed faithful legal picked
      refine tosses.allowed ⟨allowed_of_kind rfl positive masked, ?_, ?_⟩
      · exact everyNode_guarded (left below) fun _ => allowed_parens config name _
      · exact everyNode_guarded (right below) fun _ => allowed_parens config name _
  | unary chooses picked _ tosses operand =>
      have positive := chooses.isPositive faithful legal at_
      have below := at_.scale chooses.scaled
      have masked := unOp_allowed faithful legal picked
      refine tosses.allowed ⟨allowed_of_kind rfl positive masked, ?_⟩
      exact everyNode_guarded (operand below) fun _ => allowed_parens config name _

end Allowed

/-! Where parentheses stand if all coins fall alike. -/
section Coins

theorem Tosses.eq_bare (tails : ∀ s after, source.coin config.parenthesize s ≠ (.ok true, after))
    (tosses : Tosses source config s bare tree after) : tree = bare := by
  obtain ⟨coin, tossed, rfl⟩ := tosses
  cases coin with
  | false => rfl
  | true => exact absurd tossed (tails _ _)

theorem Tosses.eq_parens (heads : ∀ s after, source.coin config.parenthesize s ≠ (.ok false, after))
    (tosses : Tosses source config s bare tree after) : tree = .parens bare := by
  obtain ⟨coin, tossed, rfl⟩ := tosses
  cases coin with
  | false => exact absurd tossed (heads _ _)
  | true => rfl

/-- Without heads all parentheses are those that operands got for their grouping. -/
theorem Run.onlyForced (tails : ∀ s after, source.coin config.parenthesize s ≠ (.ok true, after))
    (run : Run source config name weights s tree after) :
    tree.isParens = false ∧ tree.EveryNode OnlyForced := by
  induction run with
  | integer _ _ tosses | double _ _ tosses | var _ tosses =>
      rw [tosses.eq_bare tails]
      exact ⟨rfl, trivial⟩
  | @binary _ _ _ _ _ _ _ _ op _ _ _ _ _ _ _ tosses left right =>
      have loose : UnOp.precedence < op.precedence := op.two_lt_precedence
      rw [tosses.eq_bare tails]
      refine ⟨rfl, ⟨fun inner same => ?_, fun inner same => ?_⟩, ?_, ?_⟩
      · obtain ⟨needed, rfl⟩ := of_guarded_eq_parens left.1 same
        exact needed
      · obtain ⟨needed, rfl⟩ := of_guarded_eq_parens right.1 same
        exact needed
      · exact everyNode_guarded left.2 fun needed => onlyForced_parens (by omega)
      · exact everyNode_guarded right.2 fun needed => onlyForced_parens (by omega)
  | unary _ _ _ tosses operand =>
      rw [tosses.eq_bare tails]
      refine ⟨rfl, fun inner same => ?_, ?_⟩
      · obtain ⟨needed, rfl⟩ := of_guarded_eq_parens operand.1 same
        exact needed
      · exact everyNode_guarded operand.2 onlyForced_parens

/-- Without tails every operand comes in parentheses, and then its grouping needs no others. -/
theorem Run.alternates (heads : ∀ s after, source.coin config.parenthesize s ≠ (.ok false, after))
    (run : Run source config name weights s tree after) :
    tree.isParens = true ∧ tree.EveryNode Alternates := by
  induction run with
  | integer _ _ tosses | double _ _ tosses | var _ tosses =>
      rw [tosses.eq_parens heads]
      exact ⟨rfl, rfl, trivial⟩
  | @binary _ _ _ _ _ _ _ _ op _ _ _ _ _ _ _ tosses left right =>
      have tightLeft := precedence_of_isParens left.1
      have tightRight := precedence_of_isParens right.1
      have loose := op.two_lt_precedence
      rw [tosses.eq_parens heads, binaryOf_of_fits (by omega) (by omega)]
      exact ⟨rfl, rfl, ⟨left.1, right.1⟩, left.2, right.2⟩
  | unary _ _ _ tosses operand =>
      have tight := precedence_of_isParens operand.1
      rw [tosses.eq_parens heads, unaryOf_of_fits (by omega)]
      exact ⟨rfl, rfl, operand.1, operand.2⟩

end Coins

/-- Over an engine whose numbers are where they are asked for, every node of a tree that is returned
is allowed. Parentheses are only those that the grouping needs if they have no chance, and all nodes
are in parentheses of their own if they are certain. -/
theorem generate_conforms (engine : Engine σ) (bounded : engine.Bounded) (config : ValidConfig)
    (name : String) (depth : Nat) (s after : σ) (tree : Expr)
    (returned : generate engine.source config name depth s = (.ok tree, after)) :
    (∀ node ∈ tree.subexpressions, node.Allowed config.val name) ∧
      (config.val.parenthesize.equals (.zero false) = true →
        tree.isParens = false ∧ ∀ node ∈ tree.subexpressions, node.OnlyForced) ∧
      (config.val.parenthesize.equals .one = true →
        tree.isParens = true ∧ ∀ node ∈ tree.subexpressions, node.Alternates) := by
  have faithful := bounded.faithful
  have legal := ValidConfig.legal config
  obtain ⟨weights, initial, drawn⟩ := generate_eq_ok.mp returned
  have run := run_of_draw drawn
  obtain ⟨found, same, exprs, _⟩ := Weights.ofConfig_ok legal
  cases initial.symm.trans same
  refine ⟨?_, fun null => ?_, fun certain => ?_⟩
  · exact (everyNode_iff tree).mp (run.allowed faithful legal (Weights.isAt_root exprs))
  · have tails : ∀ s after, engine.source.coin config.val.parenthesize s ≠ (.ok true, after) :=
      fun s after tossed => Bool.false_ne_true ((faithful.heads tossed).symm.trans null)
    rw [← everyNode_iff]
    exact run.onlyForced tails
  · have heads : ∀ s after, engine.source.coin config.val.parenthesize s ≠ (.ok false, after) :=
      fun s after tossed => Bool.false_ne_true ((faithful.tails tossed).symm.trans certain)
    rw [← everyNode_iff]
    exact run.alternates heads

/-- Fractions that are all three quarters, and coins that have no chance: the operands on the right of
`x + x + (x + x) + (x + x + (x + x))` are in parentheses and no others. -/
theorem generate_conforms_sums :
    let engine := Engine.constant (.ofRatio false 3 4)
    let config : ValidConfig :=
      ⟨{ Config.default with parenthesize := .zero false }, by decide +kernel⟩
    let sum : Expr := .binary .plus (.var "x") (.var "x")
    let half : Expr := .binary .plus sum (.parens sum)
    let tree : Expr := .binary .plus half (.parens half)
    engine.Bounded ∧ generate engine.source config "x" 4 () = (.ok tree, ()) ∧
      (∀ node ∈ tree.subexpressions, node.Allowed config.val "x") ∧
      ∀ node ∈ tree.subexpressions, node.OnlyForced := by
  intro engine config sum half tree
  have bounded : engine.Bounded := Engine.constant_bounded ⟨by decide +kernel, by decide +kernel⟩
  have returned : generate engine.source config "x" 4 () = (.ok tree, ()) :=
    Prod.ext (ok_of_toOption (by decide +kernel)) rfl
  obtain ⟨allowed, forced, _⟩ := generate_conforms engine bounded config "x" 4 () () tree returned
  exact ⟨bounded, returned, allowed, (forced rfl).2⟩

end Generator
end CExpr
