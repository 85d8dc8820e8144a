/-!
Blanks, digits and decimal numerals, as the Unicode standard (version 14) has them. White space is the
characters of class `White_Space` together with the four information separators U+001C to U+001F. Digits
of any script (general category `Nd`) count with their value. A numeral of more than 4300 digits is
refused, leading zeros included, since reading it takes time that grows with the square of its length.
-/
namespace CExpr.Text

/-- First and last code point of each run of blanks, in ascending order. -/
def blankRuns : List (Nat × Nat) :=
  [(0x9, 0xd), (0x1c, 0x20), (0x85, 0x85), (0xa0, 0xa0), (0x1680, 0x1680), (0x2000, 0x200a),
   (0x2028, 0x2029), (0x202f, 0x202f), (0x205f, 0x205f), (0x3000, 0x3000)]

def isBlank (c : Char) : Bool :=
  blankRuns.any fun run => run.1 ≤ c.toNat && c.toNat ≤ run.2

def isAsciiBlank (c : Char) : Bool :=
  c = ' ' || (9 ≤ c.toNat && c.toNat ≤ 13)

/-- The zero of each script, in ascending order. -/
def digitZeros : List Nat :=
  [0x30, 0x660, 0x6f0, 0x7c0, 0x966, 0x9e6, 0xa66, 0xae6, 0xb66, 0xbe6, 0xc66, 0xce6, 0xd66,
   0xde6, 0xe50, 0xed0, 0xf20, 0x1040, 0x1090, 0x17e0, 0x1810, 0x1946, 0x19d0, 0x1a80, 0x1a90,
   0x1b50, 0x1bb0, 0x1c40, 0x1c50, 0xa620, 0xa8d0, 0xa900, 0xa9d0, 0xa9f0, 0xaa50, 0xabf0,
   0xff10, 0x104a0, 0x10d30, 0x11066, 0x110f0, 0x11136, 0x111d0, 0x112f0, 0x11450, 0x114d0,
   0x11650, 0x116c0, 0x11730, 0x118e0, 0x11950, 0x11c50, 0x11d50, 0x11da0, 0x16a60, 0x16ac0,
   0x16b50, 0x1d7ce, 0x1d7d8, 0x1d7e2, 0x1d7ec, 0x1d7f6, 0x1e140, 0x1e2f0, 0x1e950, 0x1fbf0]

def digitValue? (c : Char) : Option Nat :=
  (digitZeros.find? fun start => start ≤ c.toNat && c.toNat < start + 10).map (c.toNat - ·)

def isDigit (c : Char) : Bool := (digitValue? c).isSome

def maxDigits : Nat := 4300

structure TooManyDigits where
  count : Nat
  deriving DecidableEq

def TooManyDigits.message (e : TooManyDigits) : String :=
  s!"Exceeds the limit ({maxDigits} digits) for integer string conversion: " ++
    s!"value has {e.count} digits; use sys.set_int_max_str_digits() to increase the limit"

def ofDigits (digits : List Char) : Nat :=
  digits.foldl (fun value c => 10 * value + (digitValue? c).getD 0) 0

def readDigits (digits : List Char) : Except TooManyDigits Nat :=
  if digits.length ≤ maxDigits then .ok (ofDigits digits) else .error ⟨digits.length⟩

def isNumeralBlank (c : Char) : Bool :=
  if c.toNat < 128 then isAsciiBlank c else isBlank c

/-- A numeral without the underscores that set its digits apart. Each of them has to stand between
two digits. -/
def ungrouped? (afterDigit : Bool) : List Char → Option (List Char)
  | [] => some []
  | '_' :: c :: rest =>
    if afterDigit && isDigit c then (ungrouped? true rest).map (c :: ·) else none
  | ['_'] => none
  | c :: rest => (ungrouped? (isDigit c) rest).map (c :: ·)

def trimBlanks (text : List Char) : List Char :=
  ((text.dropWhile isNumeralBlank).reverse.dropWhile isNumeralBlank).reverse

def splitSign : List Char → Bool × List Char
  | '-' :: rest => (true, rest)
  | '+' :: rest => (false, rest)
  | rest => (false, rest)

/-- An integer with an optional sign, blanks around it and underscores between its digits. A text of
any other form is none. -/
def readInteger? (text : List Char) : Option (Except TooManyDigits Int) :=
  let (negative, body) := splitSign (trimBlanks text)
  match ungrouped? false body with
  | none | some [] => none
  | some digits =>
    if digits.all isDigit then
      some ((readDigits digits).map fun magnitude =>
        if negative then -(magnitude : Int) else magnitude)
    else none

def digitsOf (value : Nat) : List Char := Nat.toDigits 10 value

def integerChars : Int → List Char
  | .ofNat magnitude => digitsOf magnitude
  | .negSucc predecessor => '-' :: digitsOf (predecessor + 1)

end CExpr.Text
