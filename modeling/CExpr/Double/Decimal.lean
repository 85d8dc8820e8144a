import CExpr.Double.Rounding
import CExpr.Text.Numeral

/-!
Reading decimal numerals as doubles: the exact value of the numeral, rounded once. A numeral is a
run of digits, optionally a point with further digits, optionally an exponent of ten.
-/
namespace CExpr.Double
open Text

/-- The double nearest to `digits` times ten to the `exponent`. Beyond exponent 400, and below -400
less the number of bits, the result is known to be infinite or zero without computing the power. -/
def ofDecimal (negative : Bool) (digits : Nat) (exponent : Int) : Double :=
  if digits = 0 then zero negative
  else if 400 < exponent then infinite negative
  else if exponent < -400 - (digits.log2 : Int) then zero negative
  else ofRatio negative (digits * 10 ^ exponent.toNat) (10 ^ (-exponent).toNat)

def exponentPart : List Char → Int
  | [] => 0
  | c :: rest =>
    if c = 'e' || c = 'E' then
      match rest with
      | '-' :: digits => -(ofDigits digits : Int)
      | '+' :: digits => ofDigits digits
      | digits => ofDigits digits
    else 0

def ofNumeral (negative : Bool) (text : List Char) : Double :=
  let whole := text.takeWhile isDigit
  match text.dropWhile isDigit with
  | '.' :: rest =>
    let fraction := rest.takeWhile isDigit
    ofDecimal negative (ofDigits (whole ++ fraction))
      (exponentPart (rest.dropWhile isDigit) - fraction.length)
  | rest => ofDecimal negative (ofDigits whole) (exponentPart rest)

def isExponent : List Char → Bool
  | [] => true
  | c :: rest =>
    let digits := match rest with
      | '-' :: digits | '+' :: digits => digits
      | digits => digits
    (c = 'e' || c = 'E') && !digits.isEmpty && digits.all isDigit

def isNumeral (text : List Char) : Bool :=
  let whole := text.takeWhile isDigit
  match text.dropWhile isDigit with
  | '.' :: rest =>
    !(whole.isEmpty && (rest.takeWhile isDigit).isEmpty) && isExponent (rest.dropWhile isDigit)
  | rest => !whole.isEmpty && isExponent rest

def ofName? (negative : Bool) (name : List Char) : Option Double :=
  match String.ofList (name.map Char.toLower) with
  | "inf" | "infinity" => some (infinite negative)
  | "nan" => some nan
  | _ => none

/-- A numeral with an optional sign, blanks around it and underscores between its digits, or the
name of a special value. -/
def ofText? (text : List Char) : Option Double :=
  match ungrouped? false (trimBlanks text) with
  | none => none
  | some text =>
    let (negative, body) := splitSign text
    if isNumeral body then some (ofNumeral negative body) else ofName? negative body

end CExpr.Double
