import CExpr.Mask
import CExpr.Weights.Basic

/-!
Random draws. A source offers five primitive draws over a state of its own. A draw may fail, and
then says both why and in which state it leaves the source, so that the draws before a failure are
never undone. Everything else that is drawn at random is put together from the five primitives.
-/
namespace CExpr

inductive Queue
  | kinds | bits | integers | reals | coins
  deriving DecidableEq

inductive DrawError
  | negativeWeight (weights : List Double)
  | noPositiveWeight
  | emptyMask
  | rankOutside (rank : Int) (count : Nat)
  | emptyIntegerRange (lo hi : Int)
  | emptyRealRange (lo hi : Double)
  | notProbability (value : Double)
  | notMember (index : Int) (vocabulary : Vocabulary)
  | weight (e : WeightError)
  | exhausted (queue : Queue)
  | interrupted
  | tooDeep
  deriving DecidableEq

def Draw (σ α : Type) : Type := σ → Except DrawError α × σ

namespace Draw

def pure (a : α) : Draw σ α := fun s => (.ok a, s)

def fail (e : DrawError) : Draw σ α := fun s => (.error e, s)

def bind (x : Draw σ α) (f : α → Draw σ β) : Draw σ β := fun s =>
  match x s with
  | (.ok a, s) => f a s
  | (.error e, s) => (.error e, s)

instance : Monad (Draw σ) where
  pure := pure
  bind := bind

def ofExcept : Except DrawError α → Draw σ α
  | .ok a => pure a
  | .error e => fail e

end Draw

structure Source (σ : Type) where
  /-- An index, with a chance in proportion to its weight. -/
  choice : List Double → Draw σ Int
  bit : Mask → Draw σ Int
  integer : Int → Int → Draw σ Int
  real : Double → Double → Draw σ Double
  /-- Heads with a given probability. -/
  coin : Double → Draw σ Bool

namespace Source

variable {σ : Type} (source : Source σ)

def member (vocabulary : Vocabulary) (members : List α) (index : Int) : Draw σ α :=
  match if index < 0 then none else members[index.toNat]? with
  | some found => pure found
  | none => .fail (.notMember index vocabulary)

def binOp (mask : Mask) : Draw σ BinOp := do member .binOp BinOp.all (← source.bit mask)

def unOp (mask : Mask) : Draw σ UnOp := do member .unOp UnOp.all (← source.bit mask)

def exprKind (weights : Weights) : Draw σ ExprKind := do
  member .exprKind ExprKind.all (← source.choice weights.exprList)

def typeKind (weights : Weights) : Draw σ TypeKind := do
  member .typeKind TypeKind.all (← source.choice weights.typeList)

def qualifiers (constProbability volatileProbability : Double) : Draw σ Qualifiers := do
  let const ← source.coin constProbability
  let volatile ← source.coin volatileProbability
  return ⟨const, volatile⟩

end Source

def DrawError.message : DrawError → String
  | negativeWeight weights => s!"weights must be non-negative: {Weights.listText weights}"
  | noPositiveWeight => "at least one weight must be positive"
  | emptyMask => "Mask must not be empty"
  | rankOutside rank count => s!"draw {rank} outside [1, {count}]"
  | emptyIntegerRange lo hi => s!"empty range [{lo}, {hi}]"
  | emptyRealRange lo hi => s!"empty range [{lo.text}, {hi.text}]"
  | notProbability value => s!"probability {value.text} outside [0, 1]"
  | notMember index vocabulary => s!"{index} is not a valid {vocabulary.name}"
  | weight e => e.message
  | exhausted .kinds => "kinds"
  | exhausted .bits => "bits"
  | exhausted .integers => "u64s"
  | exhausted .reals => "doubles"
  | exhausted .coins => "coins"
  | interrupted => ""
  | tooDeep => "maximum recursion depth exceeded"

end CExpr
