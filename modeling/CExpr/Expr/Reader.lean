import CExpr.Double.Decimal
import CExpr.Expr.Basic
import CExpr.Text.Quoted
import CExpr.Token.Lexer

/-!
Reading an expression from its tokens, one token at a time. Between two tokens the reader is in one
of two states: either an operand has to come next, behind a pending left side and pending signs, or
an operand has just been completed. Each open parenthesis keeps the frame that stood before it on a
stack. A token that the state has no use for is an error at that token, so the first error is also
the first place where no continuation is left.
-/
namespace CExpr
open Text

inductive ReadError
  | unexpectedCharacter (character : Char) (position : Nat)
  | unexpectedToken (text : List Char) (position : Nat)
  | unexpectedEnd
  | unknownIdentifier (name : List Char) (position : Nat)
  /-- Something else where a parenthesis should be closed. -/
  | unclosed (position : Nat) (found : List Char)
  | tooManyDigits (numeral : TooManyDigits)
  deriving DecidableEq

namespace Reader

/-- What stands before the next operand, back to the last open parenthesis: the tree read so far
with the operator that waits for its right operand, and unary operators, the last one first. -/
structure Frame where
  left : Option (Expr × BinOp)
  signs : List UnOp

def Frame.empty : Frame := ⟨none, []⟩

def Frame.complete (frame : Frame) (operand : Expr) : Expr :=
  let signed := operand.withSigns frame.signs
  match frame.left with
  | none => signed
  | some (tree, op) => tree.attach op signed

inductive State
  | expectsOperand (frame : Frame) (stack : List Frame)
  | expectsOperator (tree : Expr) (stack : List Frame)

def State.start : State := expectsOperand Frame.empty []

def step (allowed : Option (List String)) : State → Token → Except ReadError State
  | .expectsOperand frame stack, token =>
    match token.cls with
    | .integer =>
      match readDigits token.text with
      | .ok value => .ok (.expectsOperator (frame.complete (.integer value)) stack)
      | .error numeral => .error (.tooManyDigits numeral)
    | .double =>
      .ok (.expectsOperator (frame.complete (.double (.ofNumeral false token.text))) stack)
    | .identifier =>
      let name := String.ofList token.text
      if allowed.all (·.contains name) then
        .ok (.expectsOperator (frame.complete (.var name)) stack)
      else .error (.unknownIdentifier token.text token.position)
    | .leftParen => .ok (.expectsOperand .empty (frame :: stack))
    | .operator | .rightParen =>
      match UnOp.ofToken? token.text with
      | some op => .ok (.expectsOperand ⟨frame.left, op :: frame.signs⟩ stack)
      | none => .error (.unexpectedToken token.text token.position)
  | .expectsOperator tree stack, token =>
    match BinOp.ofToken? token.text, token.cls, stack with
    | some op, _, _ => .ok (.expectsOperand ⟨some (tree, op), []⟩ stack)
    | none, .rightParen, frame :: stack =>
      .ok (.expectsOperator (frame.complete (.parens tree)) stack)
    | none, _, [] => .error (.unexpectedToken token.text token.position)
    | none, _, _ :: _ => .error (.unclosed token.position token.text)

def finish (endPosition : Nat) : State → Except ReadError Expr
  | .expectsOperator tree [] => .ok tree
  | .expectsOperator _ (_ :: _) => .error (.unclosed endPosition [])
  | .expectsOperand .. => .error .unexpectedEnd

def readTokens (allowed : Option (List String)) (tokens : List Token) (endPosition : Nat) :
    Except ReadError Expr := do
  finish endPosition (← tokens.foldlM (step allowed) State.start)

end Reader

/-- The expression that a text writes. With a list of variables no other name is allowed. The whole
text is cut into tokens first, so a character that starts none is reported before anything else. -/
def Expr.read (text : List Char) (allowed : Option (List String)) : Except ReadError Expr :=
  match tokenize text with
  | .error unexpected => .error (.unexpectedCharacter unexpected.character unexpected.position)
  | .ok tokens => Reader.readTokens allowed tokens text.length

namespace ReadError

def message : ReadError → String
  | unexpectedCharacter character position =>
    s!"unexpected character {quotedChars [character]} at offset {position}"
  | unexpectedToken text position => s!"unexpected {quotedChars text} at offset {position}"
  | unexpectedEnd => "unexpected end of input"
  | unknownIdentifier name position =>
    s!"unknown identifier {quotedChars name} at offset {position}"
  | unclosed position found => s!"expected ')' at offset {position}, got {quotedChars found}"
  | tooManyDigits numeral => numeral.message

end ReadError
end CExpr
