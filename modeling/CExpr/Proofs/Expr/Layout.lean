import CExpr.Proofs.Expr.Pieces

/-!
The text of a tree depends on its lexemes alone. Which spaces are written can be told from what was
written before: where an operand is due an operator is a sign and stands directly before whatever
follows, unless the two would go together, and elsewhere it is binary and has a space on either side.
So trees that are grouped differently and have the same lexemes have the same text.
-/
namespace CExpr

namespace Lexeme
open Text

def chars : Lexeme → List Char
  | integer value => integerChars value
  | double value => value.chars
  | identifier name => name.toList
  | operator text => text
  | leftParen => ['(']
  | rightParen => [')']

def layout (operandDue : Bool) : List Lexeme → List Char
  | [] => []
  | operator text :: rest =>
    match if operandDue then UnOp.ofToken? text else none with
    | some op => Expr.signed op (layout true rest)
    | none => ' ' :: text ++ ' ' :: layout true rest
  | leftParen :: rest => '(' :: layout true rest
  | lexeme :: rest => lexeme.chars ++ layout false rest

end Lexeme

namespace Expr
open Lexeme

theorem signed_append (op : UnOp) {operand : List Char} (opens : Opens operand)
    (rest : List Char) : signed op (operand ++ rest) = signed op operand ++ rest := by
  obtain ⟨first, more, rfl, _⟩ := opens
  unfold signed
  rw [List.cons_append, List.head?_cons, List.head?_cons]
  split <;> rfl

theorem layout_sign (op : UnOp) (rest : List Lexeme) :
    layout true (operator op.token :: rest) = signed op (layout true rest) := by
  simp only [layout, UnOp.ofToken?_token, if_true]

theorem layout_binary (op : BinOp) (rest : List Lexeme) :
    layout false (operator op.token :: rest) = ' ' :: op.token ++ ' ' :: layout true rest := by
  simp only [layout, Bool.false_eq_true, if_false]

theorem layout_lexemes {e : Expr} (names : e.EveryLeaf HasReadableName) (rest : List Lexeme) :
    layout true (e.lexemes ++ rest) = e.chars ++ layout false rest := by
  -- The lexemes behind the tree come where an operand has just ended.
  induction e generalizing rest with
  | integer value | double value | var name => rfl
  | unary op operand ih =>
      have opens : Opens operand.chars := opens_chars names
      rw [lexemes, List.cons_append, layout_sign, ih names, chars, signed_append op opens]
  | binary op lhs rhs left right =>
      rw [lexemes, List.append_assoc, List.cons_append, left names.1, layout_binary,
        right names.2, chars]
      simp only [List.append_assoc, List.cons_append]
  | parens inner ih =>
      rw [lexemes, List.append_assoc, List.cons_append, layout, ih names, chars]
      simp only [List.append_assoc, List.cons_append]
      rfl

theorem chars_eq_layout {e : Expr} (names : e.EveryLeaf HasReadableName) :
    e.chars = layout true e.lexemes := by
  have whole := layout_lexemes names []
  rw [List.append_nil, layout, List.append_nil] at whole
  exact whole.symm

end Expr
end CExpr
