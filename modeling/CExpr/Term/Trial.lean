import CExpr.Builtin
import CExpr.Term.Assumption

/-!
Trials: assumptions tried at all values that their variables can have. Only those bits of a variable
are varied that matter for what is assumed.
-/
namespace CExpr

namespace Term

def bitsUpTo (w : Word) : Word := if w = 0 then 0 else BitVec.ofNat 64 (2 ^ (w.toNat.log2 + 1) - 1)

def wantedOfUnary (wanted : Word) : UnOp → Word
  | .plus | .bitNot => wanted
  | .neg => bitsUpTo wanted
  | .logicalNot => -1

/-- The bits of both operands that matter. A constant lets through only some. -/
def wantedOfBinary (wanted : Word) : BinOp → Term → Term → Word
  | .bitAnd, word c, _ => wanted &&& c
  | .shr, _, word k => wanted.shiftLeft k
  | .bitAnd, _, _ | .bitOr, _, _ | .bitXor, _, _ => wanted
  | .plus, _, _ | .minus, _, _ | .mult, _, _ => bitsUpTo wanted
  | _, _, _ => -1

def bitsOf (name : String) (wanted : Word) : Term → Word
  | word _ => 0
  | symbol other => if other = name then wanted else 0
  | unary op operand => operand.bitsOf name (wantedOfUnary wanted op)
  | binary op lhs rhs =>
    let wanted := wantedOfBinary wanted op lhs rhs
    lhs.bitsOf name wanted ||| rhs.bitsOf name wanted

end Term

structure Varied where
  name : String
  bits : List Nat

namespace Assumptions

def areMetAt (a : Assumptions) (sample : Sample) : Bool :=
  a.terms.all fun term => term.eval sample.value != 0

def varied (a : Assumptions) : List Varied :=
  (a.terms.flatMap Term.names).eraseDups.map fun name =>
    let bits := a.terms.foldl (fun bits term => bits ||| term.bitsOf name (-1)) 0
    ⟨name, (List.range 64).filter bits.getLsbD⟩

/-- The first of the words with some bits and any of some others at which a search finds something. -/
def firstWord? (found? : Word → Option Sample) (word : Word) : List Nat → Option Sample
  | [] => found? word
  | bit :: rest =>
    (firstWord? found? word rest).orElse fun _ =>
      firstWord? found? (word ||| BitVec.twoPow 64 bit) rest

/-- A sample that meets assumptions and gives some variables the same values as another one. -/
def trial (a : Assumptions) (sample : Sample) : List Varied → Option Sample
  | [] => if a.areMetAt sample then some sample else none
  | ⟨name, bits⟩ :: rest =>
    firstWord? (fun word => a.trial ((name, word) :: sample) rest) 0 bits

def sample? (a : Assumptions) : Option Sample := a.trial [] a.varied

end Assumptions

end CExpr
