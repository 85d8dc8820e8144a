import CExpr.Text.Numeral

/-!
Tokens, and the cutting of a text into them. At each place blanks are skipped, and otherwise the longest
token of any class is taken. Numbers have one rule for both classes: digits are an integer unless a
point or a complete exponent follows.
-/
namespace CExpr

inductive TokenClass
  | double | integer | identifier | operator | leftParen | rightParen
  deriving DecidableEq

structure Token where
  cls : TokenClass
  text : List Char
  /-- Characters before the token. -/
  position : Nat
  deriving DecidableEq

def TokenClass.name : TokenClass → String
  | double => "double" | integer => "integer" | identifier => "ident" | operator => "op"
  | leftParen => "lparen" | rightParen => "rparen"

def startsIdentifier (c : Char) : Bool := c.isAlpha || c = '_'

def continuesIdentifier (c : Char) : Bool := c.isAlphanum || c = '_'

def isIdentifier : List Char → Bool
  | [] => false
  | c :: rest => startsIdentifier c && rest.all continuesIdentifier

open Text

namespace Token

def exponentLength : List Char → Nat
  | [] => 0
  | mark :: rest =>
    if mark = 'e' || mark = 'E' then
      match rest with
      | [] => 0
      | sign :: digits =>
        if sign = '+' || sign = '-' then
          match (digits.takeWhile isDigit).length with
          | 0 => 0
          | count => count + 2
        else
          match (rest.takeWhile isDigit).length with
          | 0 => 0
          | count => count + 1
    else 0

/-- The class of a number, and how far it goes beyond its first digit. -/
def numberRest (rest : List Char) : TokenClass × Nat :=
  let digits := (rest.takeWhile isDigit).length
  match rest.drop digits with
  | '.' :: rest =>
    let fraction := (rest.takeWhile isDigit).length
    (.double, digits + 1 + fraction + exponentLength (rest.drop fraction))
  | rest =>
    match exponentLength rest with
    | 0 => (.integer, digits)
    | length => (.double, digits + length)

def singleOperators : List Char := ['-', '+', '*', '/', '%', '&', '|', '^', '<', '>', '!', '~']

def operatorRest? (first : Char) (rest : List Char) : Option Nat :=
  match first, rest.head? with
  | '&', some '&' | '|', some '|' | '<', some '<' | '>', some '>'
  | '<', some '=' | '>', some '=' | '=', some '=' | '!', some '=' => some 1
  | _, _ => if singleOperators.contains first then some 0 else none

/-- The longest token that begins with a character: its class, and how many of the characters
behind the first one belong to it. -/
def munch? (first : Char) (rest : List Char) : Option (TokenClass × Nat) :=
  if isDigit first then some (numberRest rest)
  else if startsIdentifier first then
    some (.identifier, (rest.takeWhile continuesIdentifier).length)
  else if first = '(' then some (.leftParen, 0)
  else if first = ')' then some (.rightParen, 0)
  else (operatorRest? first rest).map (.operator, ·)

end Token

structure UnexpectedCharacter where
  character : Char
  position : Nat
  deriving DecidableEq

def tokensFrom (position : Nat) : List Char → Except UnexpectedCharacter (List Token)
  | [] => .ok []
  | first :: rest =>
    if isBlank first then tokensFrom (position + 1) rest
    else
      match Token.munch? first rest with
      | none => .error ⟨first, position⟩
      | some (cls, extra) => do
        let tokens ← tokensFrom (position + 1 + extra) (rest.drop extra)
        return ⟨cls, first :: rest.take extra, position⟩ :: tokens
termination_by text => text.length
decreasing_by
  · exact Nat.lt_succ_self rest.length
  · exact Nat.lt_succ_of_le (List.length_drop ▸ Nat.sub_le _ _)

def tokenize (text : List Char) : Except UnexpectedCharacter (List Token) := tokensFrom 0 text

end CExpr
