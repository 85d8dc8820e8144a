import CExpr.Double.Decimal
import CExpr.Expr.Basic
import CExpr.Token.Lexer

/-!
What tokens say, and what a tree says. A lexeme is a token without its place and its spelling: a
literal counts by its value. The lexemes of a tree are read off from left to right, with parentheses
exactly where the tree has them, so they forget how the tree is grouped and nothing else.
-/
namespace CExpr
open Text

inductive Lexeme
  | integer (value : Int)
  | double (value : Double)
  | identifier (name : String)
  | operator (text : List Char)
  | leftParen
  | rightParen
  deriving DecidableEq

namespace Lexeme

def cls : Lexeme → TokenClass
  | integer _ => .integer
  | double _ => .double
  | identifier _ => .identifier
  | operator _ => .operator
  | leftParen => .leftParen
  | rightParen => .rightParen

end Lexeme

namespace Token

def lexeme (token : Token) : Lexeme :=
  match token.cls with
  | .integer => .integer (ofDigits token.text)
  | .double => .double (.ofNumeral false token.text)
  | .identifier => .identifier (String.ofList token.text)
  | .operator => .operator token.text
  | .leftParen => .leftParen
  | .rightParen => .rightParen

@[simp] theorem cls_lexeme (token : Token) : token.lexeme.cls = token.cls := by
  cases h : token.cls <;> simp [lexeme, h, Lexeme.cls]

theorem cls_of_lexeme {token : Token} {lexeme : Lexeme} (means : token.lexeme = lexeme) :
    token.cls = lexeme.cls := by
  rw [← means, cls_lexeme]

theorem operator_of_lexeme {token : Token} {text : List Char}
    (means : token.lexeme = .operator text) : token.cls = .operator ∧ token.text = text := by
  have cls : token.cls = .operator := cls_of_lexeme means
  simp only [lexeme, cls, Lexeme.operator.injEq] at means
  exact ⟨cls, means⟩

end Token

namespace Expr

def lexemes : Expr → List Lexeme
  | integer value => [.integer value]
  | double value => [.double value]
  | var name => [.identifier name]
  | unary op operand => .operator op.token :: operand.lexemes
  | binary op lhs rhs => lhs.lexemes ++ .operator op.token :: rhs.lexemes
  | parens inner => .leftParen :: inner.lexemes ++ [.rightParen]

end Expr
end CExpr
