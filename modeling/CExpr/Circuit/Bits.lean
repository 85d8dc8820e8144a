import CExpr.Builtin
import CExpr.Circuit.Store

/-!
The usual truth functions of one or two signals, all of them choices, and words of signals, the lowest
bit first, with the circuits of word arithmetic on them. Every circuit answers with as many bits as its
operands have, and a result is reduced to that width.
-/
namespace CExpr

namespace Signal

def both (a b : Signal) : Build Signal := select a b (fixed false)

def either (a b : Signal) : Build Signal := select a (fixed true) b

def differ (a b : Signal) : Build Signal := select a b.negate b

end Signal

open Signal

abbrev Bits := List Signal

namespace Bits

def zeros (width : Nat) : Bits := List.replicate width (fixed false)

def ofTruth (width : Nat) (truth : Signal) : Bits := (truth :: zeros width).take width

def combine (gate : Signal → Signal → Build Signal) : Bits → Bits → Build Bits
  | a :: as, b :: bs => do return (← gate a b) :: (← combine gate as bs)
  | _, _ => return []

def complement (a : Bits) : Bits := a.map negate

def select (condition : Signal) : Bits → Bits → Build Bits := combine (Signal.select condition)

def any : Bits → Build Signal
  | [] => return fixed false
  | a :: as => do either a (← any as)

def significant (a : Bits) : Nat := (a.reverse.dropWhile (· = fixed false)).length

def add (carry : Signal) : Bits → Bits → Build Bits
  | a :: as, b :: bs => do
    let unequal ← differ a b
    let sum ← differ unequal carry
    let carry ← Signal.select unequal carry a
    return sum :: (← add carry as bs)
  | _, _ => return []

def subtract (a b : Bits) : Build Bits := add (fixed true) a (complement b)

/-- Whether the first word is the smaller one; `below` is the answer for the bits further down. The
highest bit in which two words differ decides. -/
def less (below : Signal) : Bits → Bits → Build Signal
  | a :: as, b :: bs => do
    if (a :: as).all (· = fixed false) then either below (← any (b :: bs))
    else less (← Signal.select (← differ a b) b below) as bs
  | _, _ => return below

/-- The sum of a word and a product, row by row: each bit of the first factor adds the second one,
moved up to it. The lowest bit of the sum is then settled. -/
def multiplyOnto : Bits → Bits → Bits → Build Bits
  | sum, a :: as, bs => do
    let row ← (bs.take sum.length).mapM (Signal.both a)
    match ← add (fixed false) sum row with
    | [] => return []
    | lowest :: rest => return lowest :: (← multiplyOnto rest as bs)
  | sum, [], _ => return sum

/-- The factor with fewer bits that are not known to be zero gives the rows. -/
def multiply (a b : Bits) : Build Bits :=
  let open_ (bits : Bits) := bits.countP (· ≠ fixed false)
  if open_ a ≤ open_ b then multiplyOnto (zeros a.length) a b else multiplyOnto (zeros a.length) b a

def moveUp (count : Nat) (a : Bits) : Bits := (zeros count ++ a).take a.length

def moveDown (count : Nat) (a : Bits) : Bits := a.drop count ++ zeros (min count a.length)

/-- A word moved by the number that another word holds: by 1, 2, 4, … 32 as its six lowest bits say,
and out of sight if any other bit is set. -/
def moveBy (move : Nat → Bits → Bits) (a amount : Bits) : Build Bits := do
  let near ← ((amount.take 6).zipIdx).foldlM
    (fun a (bit, index) => select bit (move (2 ^ index) a) a) a
  select (← any (amount.drop 6)) (zeros a.length) near

def divideStep (divisor : Bits) : Bits × Bits → Signal → Build (Bits × Bits)
  | (quotient, remainder), bit => do
    let remainder := (bit :: remainder).dropLast
    let small ← less (fixed false) remainder divisor
    let (low, high) := remainder.splitAt (significant remainder)
    let difference ← subtract low (divisor.take low.length)
    return (small.negate :: quotient, (← select small low difference) ++ high)

/-- Quotient and remainder by long division, from the highest bit down. A divisor of zero is never
the larger one, so that every bit of the quotient is set and the dividend remains. -/
def divide (a b : Bits) : Build (Bits × Bits) :=
  a.reverse.foldlM (divideStep b) ([], zeros a.length)

end Bits
end CExpr
