import CExpr.Text.Printable

/-!
Texts in quotes, as messages show them. Single quotes are used unless the text holds one and holds
no double quote. The quote in use, the backslash and everything unprintable are escaped, so the
result shows one line of printable characters. Texts are code points here, because a text read from
a document may hold a lone surrogate, which no character is; such a code point is escaped too.
-/
namespace CExpr.Text

def codePoints (text : List Char) : List Nat := text.map (·.toNat)

def hexDigit (value : Nat) : Char :=
  if value < 10 then Char.ofNat (48 + value) else Char.ofNat (87 + value)

def hexDigits : (width value : Nat) → List Char
  | 0, _ => []
  | width + 1, value => hexDigits width (value / 16) ++ [hexDigit (value % 16)]

/-- An unprintable code point in the shortest of the three forms that holds it. -/
def escaped (codePoint : Nat) : List Char :=
  if codePoint < 0x100 then '\\' :: 'x' :: hexDigits 2 codePoint
  else if codePoint < 0x10000 then '\\' :: 'u' :: hexDigits 4 codePoint
  else '\\' :: 'U' :: hexDigits 8 codePoint

def quotedCodePoint (quote : Char) (codePoint : Nat) : List Char :=
  if codePoint = quote.toNat || codePoint = '\\'.toNat then ['\\', Char.ofNat codePoint]
  else if codePoint = 9 then ['\\', 't']
  else if codePoint = 10 then ['\\', 'n']
  else if codePoint = 13 then ['\\', 'r']
  else if isPrintable codePoint then [Char.ofNat codePoint]
  else escaped codePoint

def quoteFor (codePoints : List Nat) : Char :=
  if codePoints.contains '\''.toNat && !codePoints.contains '"'.toNat then '"' else '\''

def quotedCodePoints (codePoints : List Nat) : String :=
  let quote := quoteFor codePoints
  String.ofList (quote :: codePoints.flatMap (quotedCodePoint quote) ++ [quote])

def quotedChars (text : List Char) : String := quotedCodePoints (codePoints text)

def quoted (text : String) : String := quotedChars text.toList

def bracketed (items : List String) : String := "[" ++ ", ".intercalate items ++ "]"

end CExpr.Text
