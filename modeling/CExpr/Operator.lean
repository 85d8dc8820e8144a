/-!
The operators of C expressions: eighteen binary ones on ten levels of precedence, four unary ones.
A smaller level binds tighter, every binary level groups to the left, and a unary operator binds
tighter than every binary one. Leaves and parenthesised expressions stand at level 0.
-/
namespace CExpr

inductive BinOp
  | plus | minus | mult | div | mod
  | logicalAnd | logicalOr | bitAnd | bitOr | bitXor
  | shl | shr | eq | ne | lt | le | gt | ge
  deriving DecidableEq, Ord

inductive UnOp
  | plus | neg | logicalNot | bitNot
  deriving DecidableEq, Ord

namespace BinOp

def all : List BinOp :=
  [plus, minus, mult, div, mod, logicalAnd, logicalOr, bitAnd, bitOr, bitXor,
    shl, shr, eq, ne, lt, le, gt, ge]

def name : BinOp → String
  | plus => "PLUS" | minus => "MINUS" | mult => "MULT" | div => "DIV" | mod => "MOD"
  | logicalAnd => "LOGICAL_AND" | logicalOr => "LOGICAL_OR"
  | bitAnd => "BIT_AND" | bitOr => "BIT_OR" | bitXor => "BIT_XOR"
  | shl => "SHL" | shr => "SHR"
  | eq => "EQ" | ne => "NE" | lt => "LT" | le => "LE" | gt => "GT" | ge => "GE"

def token : BinOp → List Char
  | plus => ['+'] | minus => ['-'] | mult => ['*'] | div => ['/'] | mod => ['%']
  | logicalAnd => ['&', '&'] | logicalOr => ['|', '|']
  | bitAnd => ['&'] | bitOr => ['|'] | bitXor => ['^']
  | shl => ['<', '<'] | shr => ['>', '>']
  | eq => ['=', '='] | ne => ['!', '='] | lt => ['<'] | le => ['<', '='] | gt => ['>']
  | ge => ['>', '=']

def ofToken? (text : List Char) : Option BinOp := all.find? (fun op => op.token == text)

def precedence : BinOp → Nat
  | mult | div | mod => 3
  | plus | minus => 4
  | shl | shr => 5
  | lt | le | gt | ge => 6
  | eq | ne => 7
  | bitAnd => 8
  | bitXor => 9
  | bitOr => 10
  | logicalAnd => 11
  | logicalOr => 12

def loosest : Nat := 12

theorem mem_all (op : BinOp) : op ∈ all := by cases op <;> decide

theorem ofToken?_token (op : BinOp) : ofToken? op.token = some op := by cases op <;> rfl

theorem eq_token_of_ofToken? {text : List Char} {op : BinOp} (found : ofToken? text = some op) :
    text = op.token := by
  have := List.find?_some found
  simpa using (beq_iff_eq.mp this).symm

theorem precedence_le_loosest (op : BinOp) : op.precedence ≤ loosest := by cases op <;> decide

theorem two_lt_precedence (op : BinOp) : 2 < op.precedence := by cases op <;> decide

end BinOp

namespace UnOp

def all : List UnOp := [plus, neg, logicalNot, bitNot]

def name : UnOp → String
  | plus => "PLUS" | neg => "NEG" | logicalNot => "LOGICAL_NOT" | bitNot => "BIT_NOT"

def symbol : UnOp → Char
  | plus => '+' | neg => '-' | logicalNot => '!' | bitNot => '~'

def token (op : UnOp) : List Char := [op.symbol]

def ofToken? (text : List Char) : Option UnOp := all.find? (fun op => op.token == text)

def precedence : Nat := 2

theorem mem_all (op : UnOp) : op ∈ all := by cases op <;> decide

theorem ofToken?_token (op : UnOp) : ofToken? op.token = some op := by cases op <;> rfl

theorem eq_token_of_ofToken? {text : List Char} {op : UnOp} (found : ofToken? text = some op) :
    text = op.token := by
  have := List.find?_some found
  simpa using (beq_iff_eq.mp this).symm

end UnOp
end CExpr
