/-!
Circuits: the truth functions of numbered inputs that are drawn with one kind of gate, the choice
between two signals by a third. Every gate carries a mark. Marks only make circuits quick to tell
apart: nothing rests on them, since equality is decided on the whole circuits when it has to be.
-/
namespace CExpr

/-- The truth value at one place of a circuit. -/
inductive Signal
  | fixed (value : Bool)
  | input (index : Nat)
  /-- `yes` where `condition` is true, and `no` elsewhere. -/
  | choice (mark : Nat) (condition yes no : Signal)
  | negation (operand : Signal)

namespace Signal

def eval (inputs : Nat → Bool) : Signal → Bool
  | fixed value => value
  | input index => inputs index
  | choice _ condition yes no =>
    if condition.eval inputs then yes.eval inputs else no.eval inputs
  | negation operand => !operand.eval inputs

def decideEq (a b : Signal) : Decidable (a = b) :=
  withPtrEqDecEq a b fun _ =>
    match a, b with
    | fixed x, fixed y => decidable_of_iff (x = y) (by simp)
    | input i, input j => decidable_of_iff (i = j) (by simp)
    | negation x, negation y =>
      match decideEq x y with
      | isTrue same => isTrue (by rw [same])
      | isFalse differ => isFalse fun same => differ (Signal.negation.inj same)
    | choice mark c y n, choice mark' c' y' n' =>
      if marks : mark = mark' then
        match decideEq c c', decideEq y y', decideEq n n' with
        | isTrue cs, isTrue ys, isTrue ns => isTrue (by rw [marks, cs, ys, ns])
        | isFalse differ, _, _ => isFalse fun same => differ (Signal.choice.inj same).2.1
        | _, isFalse differ, _ => isFalse fun same => differ (Signal.choice.inj same).2.2.1
        | _, _, isFalse differ => isFalse fun same => differ (Signal.choice.inj same).2.2.2
      else isFalse fun same => marks (Signal.choice.inj same).1
    | fixed _, input _ | fixed _, choice .. | fixed _, negation _ | input _, fixed _
    | input _, choice .. | input _, negation _ | choice .., fixed _ | choice .., input _
    | choice .., negation _ | negation _, fixed _ | negation _, input _ | negation _, choice .. =>
      isFalse nofun

instance : DecidableEq Signal := decideEq

def negate : Signal → Signal
  | fixed value => fixed !value
  | negation operand => operand
  | signal => negation signal

def index : Signal → Nat
  | fixed _ => 0
  | input index => index
  | choice mark .. => mark
  | negation operand => operand.index

def isNegation : Signal → Bool
  | negation _ => true
  | _ => false

def plain : Signal → Signal
  | negation operand => operand
  | signal => signal

def isFixed : Signal → Bool
  | fixed _ => true
  | _ => false

instance : Hashable Signal where
  hash
    | fixed value => hash value
    | negation operand => mixHash 11 (hash operand.index)
    | signal => hash signal.index

theorem eval_plain (inputs : Nat → Bool) (s : Signal) :
    s.eval inputs = (s.plain.eval inputs ^^ s.isNegation) := by
  cases s <;> simp [plain, isNegation, eval]

theorem eval_negate (inputs : Nat → Bool) (s : Signal) :
    s.negate.eval inputs = !s.eval inputs := by
  cases s <;> simp [negate, eval]

end Signal

end CExpr
