import CExpr.Builtin
import CExpr.Term.Basic

/-!
Polynomials over words in terms that are no sums or products themselves. Every term has one as its
normal form, and terms with the same normal form have the same value. Sums, products and the signs
are worked out in the ring of words, unless a product would have very many terms. A shift to the
left is the product with a shifted one, a remainder is what the quotient leaves of the dividend, and
an equation is solved for what can be had alone. Terms of all other operators stay as they are with
their operands in normal form, unless these are all constants.
-/
namespace CExpr

abbrev Monomial := List Term

/-- A sum of multiples of monomials, in order, each once, and none of them zero. -/
abbrev Polynomial := List (Monomial × Word)

def BinOp.commutes : BinOp → Bool
  | plus | mult | logicalAnd | logicalOr | bitAnd | bitOr | bitXor | eq | ne => true
  | _ => false

namespace Monomial

def eval (env : String → Word) (m : Monomial) : Word := m.foldr (fun t value => t.eval env * value) 1

def insert (t : Term) : Monomial → Monomial
  | [] => [t]
  | first :: rest =>
    if t = first && t.isTruth then first :: rest
    else if (compare t first).isLE then t :: first :: rest
    else first :: insert t rest

def mul (m n : Monomial) : Monomial := m.foldr insert n

def times : Term → Term → Term
  | .binary .shl (.word 1) amount, t => .binary .shl t amount
  | t, .binary .shl (.word 1) amount => .binary .shl t amount
  | s, t => .binary .mult s t

def toTerm : Monomial → Term
  | [] => .word 1
  | t :: rest => rest.foldl times t

end Monomial

namespace Polynomial

def eval (env : String → Word) (p : Polynomial) : Word :=
  p.foldr (fun (m, c) value => c * Monomial.eval env m + value) 0

def insert (m : Monomial) (c : Word) : Polynomial → Polynomial
  | [] => if c = 0 then [] else [(m, c)]
  | (first, d) :: rest =>
    if m = first then
      if c + d = 0 then rest else (first, c + d) :: rest
    else if c = 0 then (first, d) :: rest
    else if (compare m first).isLT then (m, c) :: (first, d) :: rest
    else (first, d) :: insert m c rest

def constant (c : Word) : Polynomial := insert [] c []

def single (t : Term) : Polynomial := [([t], 1)]

def add (p q : Polynomial) : Polynomial := p.foldr (fun (m, c) sum => insert m c sum) q

def scale (m : Monomial) (c : Word) (p : Polynomial) : Polynomial :=
  p.foldr (fun (n, d) product => insert (m.mul n) (c * d) product) []

def mul (p q : Polynomial) : Polynomial := p.foldr (fun (m, c) sum => add (scale m c q) sum) []

def neg (p : Polynomial) : Polynomial := scale [] (-1) p

def sub (p q : Polynomial) : Polynomial := add p (neg q)

def constant? : Polynomial → Option Word
  | [] => some 0
  | [([], c)] => some c
  | _ => none

def multiple (m : Monomial) (c : Word) : Term :=
  if m.isEmpty then .word c
  else if c = 1 then m.toTerm
  else if c = -1 then .unary .neg m.toTerm
  else if (-c).ult c then .unary .neg (.binary .mult (.word (-c)) m.toTerm)
  else .binary .mult (.word c) m.toTerm

def toTerm : Polynomial → Term
  | [] => .word 0
  | [(m, c)] => multiple m c
  | (m, c) :: rest => .binary .plus (multiple m c) (toTerm rest)

def exponent? (c : Word) : Option Nat := (List.range 64).find? fun k => c = BitVec.twoPow 64 k

def weight (c : Word) : Nat :=
  let ones (c : Word) := (List.range 64).countP c.getLsbD
  min (ones c) (ones (-c))

/-- The word whose product with an odd word is one. Every step doubles the number of right digits. -/
def inverse (c : Word) : Word := (List.range 5).foldl (fun x _ => x * (2 - c * x)) c

def oddPart (c : Word) : Word := c / (c &&& -c)

/-- The multiples of a polynomial in which the coefficient of one of its monomials is a power of
two, as far as an odd factor makes it one. -/
def solutions (p : Polynomial) : List Polynomial :=
  p.filterMap fun (m, c) =>
    let d := oddPart c
    if m.isEmpty || d * inverse d ≠ 1 then none else some (scale [] (inverse d) p)

def lightest (p : Polynomial) : List Polynomial → Polynomial
  | [] => p
  | q :: rest =>
    let total (p : Polynomial) := (p.map fun (_, c) => weight c).sum
    let r := lightest p rest
    if total q ≤ total r then q else r

/-- An equation between polynomials: what has to be equal once everything is on one side, divided by
an odd factor, and on the other side again what would be negative there, and the constant. -/
def equation (p q : Polynomial) : Polynomial × Polynomial :=
  let difference := p.sub q
  let solved := lightest difference (solutions difference)
  let (constants, others) := solved.partition fun (m, _) => m.isEmpty
  let (negatives, positives) := others.partition fun (_, c) => (-c).ult c
  (positives, neg (negatives ++ constants))

def oriented (op : BinOp) (s t : Term) : Term :=
  if op.commutes && (compare t s).isLT then .binary op t s else .binary op s t

def complement (p : Polynomial) : Polynomial := (constant 1).sub p

def isZero (p : Polynomial) : Polynomial :=
  match p with
  | [([t], 1)] => if t.isTruth then complement p else single (.unary .logicalNot t)
  | p => single (.unary .logicalNot p.toTerm)

def equal (p q : Polynomial) : Polynomial :=
  match equation p q with
  | ([], r) => match r.constant? with
    | some c => constant (Word.ofBool (c == 0))
    | none => isZero r
  | (p, []) => isZero p
  | (p, q) => single (oriented .eq p.toTerm q.toTerm)

def less (p q : Polynomial) : Polynomial :=
  match p.constant?, q.constant? with
  | some c, some d => constant (Word.ofBool (c.ult d))
  | _, some d => if d = 0 then [] else single (.binary .lt p.toTerm (.word d))
  | _, none => if p = q then [] else single (.binary .lt p.toTerm q.toTerm)

def ofUnary (op : UnOp) (p : Polynomial) : Polynomial :=
  match op with
  | .plus => p
  | .neg => p.neg
  | .bitNot => (constant (-1)).sub p
  | .logicalNot => equal p []

def ofEqual (op : BinOp) (p : Polynomial) : Option Polynomial :=
  match op with
  | .bitAnd | .bitOr => some p
  | .bitXor => some []
  | _ => none

def ofUniform (op : BinOp) (c : Word) (p : Polynomial) : Option Polynomial :=
  if c = 0 then
    match op with
    | .bitAnd => some []
    | .bitOr | .bitXor => some p
    | _ => none
  else if c = -1 then
    match op with
    | .bitAnd => some p
    | .bitOr => some (constant (-1))
    | .bitXor => some ((constant (-1)).sub p)
    | _ => none
  else none

def isBitwise : BinOp → Bool
  | .bitAnd | .bitOr | .bitXor => true
  | _ => false

def parts (op : BinOp) : Term → List Term
  | .binary other lhs rhs =>
    if other = op then parts op lhs ++ parts op rhs else [.binary other lhs rhs]
  | t => [t]

/-- One more operand of a bitwise operator. The operands stand in order, constants first. Two that
are the same count once, or in an exclusive disjunction not at all. -/
def join (op : BinOp) (t : Term) : List Term → List Term
  | [] => [t]
  | first :: rest =>
    match t, first with
    | .word c, .word d => .word (op.apply c d) :: rest
    | t, first =>
      if t = first then if op = .bitXor then rest else first :: rest
      else if (compare t first).isLT then t :: first :: rest
      else first :: join op t rest

def chained (op : BinOp) : List Term → Polynomial
  | [] => []
  | [.word c] => constant c
  | [t] => single t
  | .word c :: t :: rest =>
    let others := rest.foldl (.binary op) t
    (ofUniform op c (single others)).getD (single (.binary op (.word c) others))
  | t :: rest => single (rest.foldl (.binary op) t)

def residue (op : BinOp) (p q : Polynomial) : Polynomial :=
  let simpler :=
    match p.constant?, q.constant? with
    | some c, some d => some (constant (op.apply c d))
    | some c, none => ofUniform op c q
    | none, some d => ofUniform op d p
    | none, none => if p = q then ofEqual op p else none
  simpler.getD <|
    if isBitwise op then
      chained op ((parts op p.toTerm ++ parts op q.toTerm).foldr (join op) [])
    else single (oriented op p.toTerm q.toTerm)

def shiftBy (amount : Term) : Term → Term
  | .binary .shr t other =>
    if (compare amount other).isLT then .binary .shr (shiftBy amount t) other
    else .binary .shr (.binary .shr t other) amount
  | t => .binary .shr t amount

def quotientOf (t : Term) (d : Nat) : Term :=
  if 2 ^ 64 ≤ d then .word 0
  else match exponent? (BitVec.ofNat 64 d) with
    | some k => shiftBy (.word (BitVec.ofNat 64 k)) t
    | none => .binary .div t (.word (BitVec.ofNat 64 d))

def dividend? : Term → Option (Term × Nat)
  | .binary .div t (.word c) => if c = 0 then none else some (t, c.toNat)
  | .binary .shr t (.word k) => if k.toNat < 64 then some (t, 2 ^ k.toNat) else none
  | _ => none

/-- The remainder as which a polynomial is written, if it is one by a constant: the dividend,
without that multiple of the quotient, and the constant. -/
def remainder? (p : Polynomial) : Option (Polynomial × Monomial × Nat) :=
  p.findSome? fun (m, c) =>
    match m with
    | [t] => do
      let (dividend, d) ← dividend? t
      let rest := insert m (-c) p
      if BitVec.ofNat 64 d = -c && rest.toTerm = dividend then some (rest, m, d) else none
    | _ => none

def ofAtom : Term → Polynomial
  | .word c => constant c
  | t => single t

def plainQuotient (p : Polynomial) (d : Nat) : Polynomial :=
  match p with
  | [([t], 1)] =>
    match dividend? t with
    | some (dividend, c) => ofAtom (quotientOf dividend (c * d))
    | none => ofAtom (quotientOf t d)
  | p => ofAtom (quotientOf p.toTerm d)

/-- The quotient by a constant other than zero. What is missing from a remainder to its dividend may
be divided on its own if there is nothing left. -/
def quotientBy (p : Polynomial) (d : Nat) : Polynomial :=
  if d = 1 then p
  else match remainder? p with
    | some (dividend, m, c) =>
      if c % d = 0 then
        (plainQuotient dividend d).sub (scale m (BitVec.ofNat 64 (c / d)) (constant 1))
      else plainQuotient p d
    | none => plainQuotient p d

def shiftedRight (p q : Polynomial) : Polynomial :=
  match p.constant?, q.constant? with
  | some c, some k => constant (c.shiftRight k)
  | none, some k => if k.toNat < 64 then quotientBy p (2 ^ k.toNat) else []
  | _, none => if p = [] then [] else single (shiftBy q.toTerm p.toTerm)

/-- A polynomial that is one constant or another as a truth value says: the first, the truth value
and what it adds. -/
def alternative? : Polynomial → Option (Word × Term × Word)
  | [([t], d)] => if t.isTruth then some (0, t, d) else none
  | [([], c), ([t], d)] => if t.isTruth then some (c, t, d) else none
  | _ => none

def quotientByWord (p : Polynomial) (d : Word) : Polynomial :=
  match p.constant? with
  | some c => constant (c.divide d)
  | none => if d = 0 then constant (-1) else quotientBy p d.toNat

/-- A quotient by a shifted one is a shift, but if that is out of sight, the largest word. What is
divided by itself gives one, and zero the largest word, which is two less. -/
def quotient (p q : Polynomial) : Polynomial :=
  match q.constant? with
  | some d => quotientByWord p d
  | none =>
    match alternative? q with
    | some (c, t, d) =>
      (quotientByWord p c).add
        ((single t).mul ((quotientByWord p (c + d)).sub (quotientByWord p c)))
    | none =>
      match q with
      | [([.binary .shl (.word 1) amount], 1)] =>
        (shiftedRight p (single amount)).sub (isZero (single (.binary .lt amount (.word 64))))
      | q => if p = q then (constant 1).sub (scale [] 2 (isZero p)) else residue .div p q

def remainder (p q : Polynomial) : Polynomial :=
  match q.constant?.map fun d => (d, exponent? d) with
  | some (d, some _) => residue .bitAnd p (constant (d - 1))
  | _ => if q = [] then p else p.sub ((quotient p q).mul q)

def ofBinary (op : BinOp) (p q : Polynomial) : Polynomial :=
  match op with
  | .plus => p.add q
  | .minus => p.sub q
  | .mult => p.mul q
  | .div => quotient p q
  | .mod => remainder p q
  | .shl => p.mul (residue op (constant 1) q)
  | .shr => shiftedRight p q
  | .eq => equal p q
  | .ne => complement (equal p q)
  | .lt => less p q
  | .le => complement (less q p)
  | .gt => less q p
  | .ge => complement (less p q)
  | _ => residue op p q

def expanded? (factors : List Polynomial) : Option Polynomial :=
  factors.foldr (fun p product => do
    let q ← product
    if p.length * q.length ≤ 512 then some (p.mul q) else none) (some (constant 1))

def product (factors : List Polynomial) : Polynomial :=
  let left (p : Polynomial) := if p.length ≤ 1 then p else single p.toTerm
  (expanded? factors).getD ((factors.map left).foldr mul (constant 1))

def factors : Term → List Polynomial
  | .word value => [constant value]
  | .symbol name => [single (.symbol name)]
  | .unary op operand => [ofUnary op (product (factors operand))]
  | .binary op lhs rhs =>
    if op = .mult then factors lhs ++ factors rhs
    else [ofBinary op (product (factors lhs)) (product (factors rhs))]

def ofTerm (term : Term) : Polynomial := product (factors term)

end Polynomial

def Term.normal (term : Term) : Term := (Polynomial.ofTerm term).toTerm

end CExpr
