import CExpr.Builtin

/-!
Double-precision numbers, exactly. A finite double is a sign and a whole number of units of 2^-1074,
the smallest positive double; a number of units fits when it has at most 53 significant bits and
stays below 2^1024. Both zeros are there, both infinities, and one value that is not a number.
-/
namespace CExpr

def unitsPerOne : Nat := 2 ^ 1074

def unitsLimit : Nat := 2 ^ 2098

/-- Counts of units a double can hold: all bits below the leading 53 are zero, and the value stays
below 2^1024. -/
def Representable (units : Nat) : Prop :=
  2 ^ (units.log2 - 52) ∣ units ∧ units < unitsLimit

instance : DecidablePred Representable := fun _ => inferInstanceAs (Decidable (_ ∧ _))

inductive Double
  | finite (negative : Bool) (units : Nat) (fits : Representable units)
  | infinite (negative : Bool)
  | nan
  deriving DecidableEq

namespace Double

theorem unitsLimit_pos : 0 < unitsLimit := by unfold unitsLimit; apply Nat.two_pow_pos

theorem representable_zero : Representable 0 := ⟨Nat.dvd_zero _, unitsLimit_pos⟩

def zero (negative : Bool) : Double := finite negative 0 representable_zero

instance : Inhabited Double := ⟨zero false⟩

def signedUnits (negative : Bool) (units : Nat) : Int := if negative then -(units : Int) else units

/-- The numeric order, in which both zeros are equal and nothing is related to `nan`. -/
def lt : Double → Double → Bool
  | nan, _ | _, nan => false
  | infinite a, infinite b => a && !b
  | infinite a, finite .. => a
  | finite .., infinite b => !b
  | finite a u _, finite b v _ => signedUnits a u < signedUnits b v

def equals : Double → Double → Bool
  | nan, _ | _, nan => false
  | infinite a, infinite b => a == b
  | infinite _, finite .. | finite .., infinite _ => false
  | finite a u _, finite b v _ => signedUnits a u == signedUnits b v

def le (x y : Double) : Bool := x.lt y || x.equals y

def isFinite : Double → Bool
  | finite .. => true
  | _ => false

/-- Zero or more: neither negative nor `nan`. Negative zero is legal, being equal to zero. -/
def isNonnegative (x : Double) : Bool := (zero false).le x

def isPositive (x : Double) : Bool := (zero false).lt x

def neg : Double → Double
  | finite negative units fits => finite (!negative) units fits
  | infinite negative => infinite (!negative)
  | nan => nan

def toInt? : Double → Option Int
  | finite negative units _ =>
    if units % unitsPerOne = 0 then some (signedUnits negative (units / unitsPerOne)) else none
  | _ => none

end Double
end CExpr
