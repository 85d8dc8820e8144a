import CExpr.Builtin
import CExpr.Double.Rounding
import CExpr.Mask
import CExpr.Weights.Basic

/-!
The configuration of a run: ranges of the constants, the operators in use, probabilities, and for
each kind its initial weight and the factor that dampens the weight each time the kind is chosen on
the way down. A configuration may hold anything until it is checked; only a checked one drives a
run.
-/
namespace CExpr

structure KindWeight where
  initial : Double
  dampening : Double
  deriving DecidableEq

structure Config where
  integerMin : Int
  integerMax : Int
  doubleMin : Double
  doubleMax : Double
  binOps : Mask
  unOps : Mask
  parenthesize : Double
  const : Double
  volatile : Double
  /-- One entry for each kind of expression, by index. -/
  exprKinds : List KindWeight
  typeKinds : List KindWeight
  deriving DecidableEq

inductive WeightTable
  | exprKinds | typeKinds
  deriving DecidableEq

inductive ProbabilityField
  | parenthesize | const | volatile
  deriving DecidableEq

inductive ConfigProblem
  | integerRange (lo hi : Int)
  | notFinite (bound : Double)
  | doubleRange (lo hi : Double)
  | noBinOp
  | noUnOp
  | notProbability (field : ProbabilityField) (value : Double)
  | tableSize (table : WeightTable) (count : Nat)
  | initialWeight (table : WeightTable) (kind : String)
  | dampening (table : WeightTable) (kind : String)
  | noPositiveWeight (table : WeightTable)
  | noLeafWeight
  deriving DecidableEq

def Double.one : Double := .ofInt 1

namespace KindWeight

def ofTenths (initial dampening : Nat) : KindWeight :=
  ⟨.ofRatio false initial 10, .ofRatio false dampening 10⟩

end KindWeight

namespace WeightTable

def vocabulary : WeightTable → Vocabulary
  | exprKinds => .exprKind
  | typeKinds => .typeKind

def name : WeightTable → String
  | exprKinds => "expr_kind_weights"
  | typeKinds => "type_kind_weights"

def entries (config : Config) : WeightTable → List KindWeight
  | exprKinds => config.exprKinds
  | typeKinds => config.typeKinds

end WeightTable

def ProbabilityField.name : ProbabilityField → String
  | parenthesize => "parenthesize_prob"
  | const => "const_prob"
  | volatile => "volatile_prob"

namespace Config

def default : Config where
  integerMin := 0
  integerMax := 1000
  doubleMin := .zero false
  doubleMax := .ofInt 10
  binOps := Mask.full .binOp
  unOps := Mask.full .unOp
  parenthesize := .ofRatio false 20 100
  const := .ofRatio false 25 100
  volatile := .ofRatio false 5 100
  exprKinds := [.ofTenths 10 10, .ofTenths 20 10, .ofTenths 10 10, .ofTenths 30 4, .ofTenths 10 6]
  typeKinds := [.ofTenths 20 10, .ofTenths 10 10, .ofTenths 10 10]

def exprKind (config : Config) (kind : ExprKind) : KindWeight :=
  config.exprKinds[kind.index.val]?.getD ⟨.zero false, .one⟩

def typeKind (config : Config) (kind : TypeKind) : KindWeight :=
  config.typeKinds[kind.index.val]?.getD ⟨.zero false, .one⟩

def integerLimit : Int := 2 ^ 64 - 1

def problemIf (condition : Bool) (problem : ConfigProblem) : Option ConfigProblem :=
  if condition then some problem else none

def integerProblem? (config : Config) : Option ConfigProblem :=
  problemIf
    (!(0 ≤ config.integerMin && config.integerMin ≤ config.integerMax &&
      config.integerMax ≤ integerLimit))
    (.integerRange config.integerMin config.integerMax)

def doubleProblem? (config : Config) : Option ConfigProblem :=
  problemIf (!config.doubleMin.isFinite) (.notFinite config.doubleMin) <|>
  problemIf (!config.doubleMax.isFinite) (.notFinite config.doubleMax) <|>
  problemIf (!(config.doubleMin.isNonnegative && config.doubleMin.le config.doubleMax))
    (.doubleRange config.doubleMin config.doubleMax)

def maskProblem? (config : Config) : Option ConfigProblem :=
  problemIf (config.binOps.vocabulary ≠ .binOp || config.binOps.isEmpty) .noBinOp <|>
  problemIf (config.unOps.vocabulary ≠ .unOp || config.unOps.isEmpty) .noUnOp

def isProbability (value : Double) : Bool := value.isNonnegative && value.le .one

def probabilityProblem? (config : Config) : Option ConfigProblem :=
  problemIf (!isProbability config.parenthesize)
    (.notProbability .parenthesize config.parenthesize) <|>
  problemIf (!isProbability config.const) (.notProbability .const config.const) <|>
  problemIf (!isProbability config.volatile) (.notProbability .volatile config.volatile)

def isDampening (factor : Double) : Bool := factor.isPositive && factor.le .one

def kindProblem? (table : WeightTable) (kind : String) (weight : KindWeight) :
    Option ConfigProblem :=
  problemIf (!weight.initial.isNonnegative) (.initialWeight table kind) <|>
  problemIf (!isDampening weight.dampening) (.dampening table kind)

def noneIsPositive (weights : List KindWeight) : Bool :=
  (Double.sum (weights.map (·.initial))).le (.zero false)

def tableProblem? (config : Config) (table : WeightTable) : Option ConfigProblem :=
  let weights := table.entries config
  problemIf (weights.length ≠ table.vocabulary.width) (.tableSize table weights.length) <|>
  (table.vocabulary.memberNames.zip weights).findSome? (fun (kind, weight) =>
    kindProblem? table kind weight) <|>
  problemIf (noneIsPositive weights) (.noPositiveWeight table)

/-- Without a leaf that can be chosen no path would ever end. -/
def leafProblem? (config : Config) : Option ConfigProblem :=
  problemIf
    (noneIsPositive ((ExprKind.all.filter (!·.isRecursive)).map config.exprKind))
    .noLeafWeight

def problem? (config : Config) : Option ConfigProblem :=
  config.integerProblem? <|> config.doubleProblem? <|> config.maskProblem? <|>
  config.probabilityProblem? <|> config.tableProblem? .exprKinds <|>
  config.tableProblem? .typeKinds <|> config.leafProblem?

/-- Kinds with operands that can be chosen and are never dampened: paths through them may be of any
length. -/
def undampened (config : Config) : List ExprKind :=
  (ExprKind.all.filter (·.isRecursive)).filter fun kind =>
    (config.exprKind kind).initial.isPositive && Double.one.le (config.exprKind kind).dampening

end Config

abbrev ValidConfig := { config : Config // config.problem? = none }

def Config.validate (config : Config) : Except ConfigProblem ValidConfig :=
  match h : config.problem? with
  | none => .ok ⟨config, h⟩
  | some problem => .error problem

def ExprKind.warning (kind : ExprKind) : String :=
  s!"{kind.name} is never dampened; expected expression depth may be unbounded"

def Config.warnings (config : Config) : List String := config.undampened.map ExprKind.warning

def Weights.ofConfig (config : Config) : Except WeightError Weights :=
  ofLists (some (config.exprKinds.map (·.initial))) (some (config.typeKinds.map (·.initial)))

def ConfigProblem.message : ConfigProblem → String
  | integerRange lo hi =>
    s!"integer constant range [{lo}, {hi}] must lie within [0, 2**64 - 1]"
  | notFinite bound => s!"double constant bound {bound.text} is not finite"
  | doubleRange lo hi =>
    s!"double constant range [{lo.text}, {hi.text}] must be non-negative and ordered"
  | noBinOp => "bin_op_mask must enable at least one BinOp"
  | noUnOp => "un_op_mask must enable at least one UnOp"
  | notProbability field value => s!"{field.name} must lie in [0, 1], got {value.text}"
  | tableSize table count =>
    s!"{table.name} needs {table.vocabulary.width} entries, got {count}"
  | initialWeight table kind => s!"{table.name}[{kind}].initial_weight must be >= 0"
  | dampening table kind => s!"{table.name}[{kind}].dampening_factor must lie in (0, 1]"
  | noPositiveWeight table => s!"{table.name} must contain at least one positive weight"
  | noLeafWeight =>
    "expr_kind_weights must give at least one leaf kind " ++
      "(IntegerConstant, DoubleConstant, VariableExpr) a positive weight"

end CExpr
