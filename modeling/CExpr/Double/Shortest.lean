import CExpr.Double.Decimal

/-!
The text of a double: the fewest digits that read back as the same double, and of those the decimal
nearest to it, of two equally near ones the one with the even last digit. Sixteen places before the
point and three zeros after it are written out; beyond that the text has an exponent of at least two
digits. A whole number keeps its `.0`, so that the text never reads as an integer.
-/
namespace CExpr.Double
open Text

def scaledExpansion (units : Nat) : Nat := units * 5 ^ 1074

def readsBack (units digits : Nat) (exponent : Int) : Bool :=
  match ofDecimal false digits exponent with
  | finite false read _ => read = units
  | _ => false

/-- The decimal of at most `places` digits that reads back, if one of the two neighbours of the
exact value on that grid does; `length` counts the digits of the exact expansion. -/
def decimalAt? (units expansion length places : Nat) : Option (Nat × Int) :=
  let cut := length - places
  let exponent : Int := cut - 1074
  let below := expansion / 10 ^ cut
  match readsBack units below exponent, readsBack units (below + 1) exponent with
  | true, true => some (roundQuotient expansion (10 ^ cut), exponent)
  | true, false => some (below, exponent)
  | false, true => some (below + 1, exponent)
  | false, false => none

/-- Digits and exponent of the shortest decimal. Seventeen digits always suffice; the exact
expansion stands behind them so that the result reads back in any case. -/
def shortestDecimal (units : Nat) : Nat × Int :=
  let expansion := scaledExpansion units
  let length := (digitsOf expansion).length
  ((List.range 17).findSome? fun places => decimalAt? units expansion length (places + 1)).getD
    (expansion, -1074)

def significant (digits : Nat) (exponent : Int) : List Char × Int :=
  let written := digitsOf digits
  let kept := (written.reverse.dropWhile (· = '0')).reverse
  (kept, exponent + (written.length - kept.length : Nat))

def zeros (count : Nat) : List Char := List.replicate count '0'

def positional (digits : List Char) (exponent : Int) : List Char :=
  if 0 ≤ exponent then digits ++ zeros exponent.toNat ++ ['.', '0']
  else
    let places := (-exponent).toNat
    if places < digits.length then
      digits.take (digits.length - places) ++ '.' :: digits.drop (digits.length - places)
    else '0' :: '.' :: zeros (places - digits.length) ++ digits

def scientific (digits : List Char) (leading : Int) : List Char :=
  let mantissa := match digits with
    | first :: second :: rest => first :: '.' :: second :: rest
    | short => short
  let power := digitsOf leading.natAbs
  mantissa ++ 'e' :: (if leading < 0 then '-' else '+') :: zeros (2 - power.length) ++ power

def isWrittenOut (leading : Int) : Bool := -4 ≤ leading && leading < 16

def magnitudeChars (units : Nat) : List Char :=
  if units = 0 then ['0', '.', '0']
  else
    let decimal := shortestDecimal units
    let (digits, exponent) := significant decimal.1 decimal.2
    let leading : Int := digits.length + exponent - 1
    if isWrittenOut leading then positional digits exponent else scientific digits leading

def chars : Double → List Char
  | finite negative units _ => if negative then '-' :: magnitudeChars units else magnitudeChars units
  | infinite negative => if negative then ['-', 'i', 'n', 'f'] else ['i', 'n', 'f']
  | nan => ['n', 'a', 'n']

def text (x : Double) : String := String.ofList x.chars

def hundredths (units : Nat) : String :=
  let count := roundQuotient (units * 100) unitsPerOne
  let places := digitsOf (count % 100)
  String.ofList (digitsOf (count / 100) ++ '.' :: zeros (2 - places.length) ++ places)

end CExpr.Double
