import CExpr.Builtin
import CExpr.Term.Polynomial
import CExpr.Term.Sample

/-!
Assumptions: what is to be had when all of some terms are to be other than zero. An equation gives
the value of a variable, which then may be replaced, and a bound shows that high bits of one are
zero. Replacements change nothing for the values that make all the terms other than zero.
-/
namespace CExpr

namespace Term

/-- Terms that are all other than zero exactly if a term is, or if it is not. -/
def conjuncts (wanted : Bool) (term : Term) : List Term :=
  match wanted, term with
  | true, binary .logicalAnd lhs rhs => lhs.conjuncts true ++ rhs.conjuncts true
  | false, binary .logicalOr lhs rhs => lhs.conjuncts false ++ rhs.conjuncts false
  | wanted, unary .logicalNot operand => operand.conjuncts (!wanted)
  | wanted, binary .eq lhs (word 0) => lhs.conjuncts (!wanted)
  | wanted, binary .ne lhs (word 0) => lhs.conjuncts wanted
  | wanted, binary .plus (word 1) (unary .neg operand) =>
    if operand.isTruth then operand.conjuncts (!wanted)
    else if wanted then [term] else [unary .logicalNot term]
  | true, term => [term]
  | false, term => [unary .logicalNot term]

def replace (term : Term) (name : String) (value : Term) : Term :=
  match term with
  | word w => word w
  | symbol other => if other = name then value else symbol other
  | unary op operand => unary op (operand.replace name value)
  | binary op lhs rhs => binary op (lhs.replace name value) (rhs.replace name value)

end Term

structure Replacement where
  name : String
  value : Term

namespace Replacement

def ofRoot? (p : Polynomial) : Option Replacement :=
  p.findSome? fun (m, c) =>
    match m with
    | [.symbol name] =>
      let rest := Polynomial.insert m (-c) p
      let value := (Polynomial.scale [] (-Polynomial.inverse c) rest).toTerm
      let isSolved := c * Polynomial.inverse c = 1 && (c = 1 || c = -1 || rest.constant?.isSome)
      if isSolved && !rest.toTerm.names.contains name then some ⟨name, value⟩ else none
    | _ => none

def ofEquation? : Term → Option Replacement
  | .binary .eq lhs rhs => ofRoot? ((Polynomial.ofTerm lhs).sub (Polynomial.ofTerm rhs))
  | .unary .logicalNot operand => ofRoot? (Polynomial.ofTerm operand)
  | _ => none

def upTo (name : String) (bound : Word) : Replacement :=
  ⟨name, .binary .bitAnd (.word (BitVec.ofNat 64 (2 ^ (bound.toNat.log2 + 1) - 1))) (.symbol name)⟩

def ofBound? : Term → Option Replacement
  | .binary .lt (.symbol name) (.word c) => some (upTo name (c - 1))
  | .unary .logicalNot (.binary .lt (.word c) (.symbol name)) => some (upTo name c)
  | .unary .logicalNot (.binary .shr (.symbol name) (.word k)) =>
    if k.toNat < 64 then some (upTo name (BitVec.twoPow 64 k.toNat - 1)) else none
  | _ => none

end Replacement

/-- Terms that are all to be other than zero, and what has been replaced on the way to them. -/
structure Assumptions where
  terms : List Term
  replacements : List Replacement

namespace Assumptions

def apply (simplify : Term → Term) (a : Assumptions) (r : Replacement) : Assumptions :=
  let terms := a.terms.flatMap fun term => (simplify (term.replace r.name r.value)).conjuncts true
  ⟨terms, r :: a.replacements⟩

def solve (simplify : Term → Term) (a : Assumptions) : (count : Nat) → Assumptions
  | 0 => a
  | count + 1 =>
    match a.terms.findSome? Replacement.ofEquation? with
    | some r => solve simplify (a.apply simplify r) count
    | none => a

/-- The assumptions under which a term is zero, with replacements for all that equations and bounds
give. -/
def ofZero (simplify : Term → Term) (term : Term) : Assumptions :=
  let solved := solve simplify ⟨term.conjuncts false, []⟩ term.names.length
  (solved.terms.filterMap Replacement.ofBound?).foldl (apply simplify) solved

def complete (a : Assumptions) (sample : Sample) : Sample :=
  a.replacements.foldl (fun sample r => (r.name, r.value.eval sample.value) :: sample) sample

end Assumptions

end CExpr
