import CExpr.Circuit.Bits
import CExpr.Term.Basic

/-!
Terms as words of signals. Some terms are inputs: variables always, and any others that one chooses
not to look into. The input signal numbered `bit * count + index` is a bit of the input `index` of
`count`, so that the bits of one rank stand together, the lowest first.
-/
namespace CExpr

open Signal

namespace Bits

def input (count index width : Nat) : Bits :=
  (List.range width).map fun bit => .input (bit * count + index)

def ofWord (width : Nat) (value : Word) : Bits :=
  (List.range width).map fun bit => fixed (value.getLsbD bit)

def isZero (a : Bits) : Build Signal := return (← a.any).negate

end Bits

open Bits

def UnOp.bits (width : Nat) : UnOp → Bits → Build Bits
  | plus, a => return a
  | neg, a => (zeros width).subtract a
  | logicalNot, a => return ofTruth width (← a.isZero)
  | bitNot, a => return a.complement

def UnOp.wantsAll : UnOp → Bool
  | logicalNot => true
  | _ => false

def BinOp.wantsAll : BinOp → Bool
  | plus | minus | mult | bitAnd | bitOr | bitXor => false
  | _ => true

def BinOp.bits (width : Nat) (op : BinOp) (a b : Bits) : Build Bits := do
  match op with
  | plus => add (fixed false) a b
  | minus => subtract a b
  | mult => multiply a b
  | div => return (← divide a b).1.take width
  | mod => return (← divide a b).2.take width
  | logicalAnd => return ofTruth width (← both (← a.any) (← b.any))
  | logicalOr => return ofTruth width (← either (← a.any) (← b.any))
  | bitAnd => return (← combine both a b) ++ zeros (width - b.length)
  | bitOr => combine either a b
  | bitXor => combine differ a b
  | shl => return (← moveBy moveUp a b).take width
  | shr => return (← moveBy moveDown a b).take width
  | eq => return ofTruth width (← isZero (← combine differ a b))
  | ne => return ofTruth width (← any (← combine differ a b))
  | lt => return ofTruth width (← less (fixed false) a b)
  | le => return ofTruth width (← less (fixed false) b a).negate
  | gt => return ofTruth width (← less (fixed false) b a)
  | ge => return ofTruth width (← less (fixed false) a b).negate

/-- The lowest `width` bits of a term. A variable that is not among the inputs counts as zero. Of
the right operand of a bitwise conjunction no more bits are worked out than the left one lets
through. -/
def Term.bits (inputs : List Term) (width : Nat) (term : Term) : Build Bits :=
  match inputs.idxOf? term with
  | some index => return input inputs.length index width
  | none =>
    match term with
    | word value => return ofWord width value
    | symbol _ => return zeros width
    | unary op operand => do
      op.bits width (← operand.bits inputs (if op.wantsAll then 64 else width))
    | binary op lhs rhs => do
      let wanted := if op.wantsAll then 64 else width
      let left ← lhs.bits inputs wanted
      let wanted := if op = .bitAnd then left.significant else wanted
      op.bits width left (← rhs.bits inputs wanted)

def Term.inputs (whole : Term → Bool) (term : Term) : List Term :=
  if whole term then [term] else
    match term with
    | word _ => []
    | symbol name => [.symbol name]
    | unary _ operand => operand.inputs whole
    | binary _ lhs rhs => (lhs.inputs whole ++ rhs.inputs whole).eraseDups

end CExpr
