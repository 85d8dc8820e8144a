import CExpr.Operator
import CExpr.Proofs.Outcome
import CExpr.Token.Lexer

/-!
What the tokens of a text look like. Each class has its own first characters, an operator is the
token of some operator, and a parenthesis is one character. So the class of a token decides which
look-ups among the operators can succeed.
-/
namespace CExpr
open Text

namespace Token

def IsOperator (text : List Char) : Prop :=
  (∃ op : BinOp, text = op.token) ∨ ∃ op : UnOp, text = op.token

def WellFormed (token : Token) : Prop :=
  match token.cls with
  | .integer | .double => ∃ first rest, token.text = first :: rest ∧ isDigit first = true
  | .identifier => isIdentifier token.text = true
  | .operator => IsOperator token.text
  | .leftParen => token.text = ['(']
  | .rightParen => token.text = [')']

theorem isOperator_of_operatorRest {first : Char} {rest : List Char} {extra : Nat}
    (found : operatorRest? first rest = some extra) : IsOperator (first :: rest.take extra) := by
  unfold operatorRest? at found
  split at found
  case h_9 =>
      simp only [singleOperators, List.contains_iff_mem, List.mem_cons, List.not_mem_nil, or_false,
        Option.ite_none_right_eq_some, Option.some.injEq] at found
      obtain ⟨single, rfl⟩ := found
      -- The order of the characters here is that of `singleOperators`.
      rcases single with rfl | rfl | rfl | rfl | rfl | rfl | rfl | rfl | rfl | rfl | rfl | rfl
      · exact .inl ⟨.minus, rfl⟩
      · exact .inl ⟨.plus, rfl⟩
      · exact .inl ⟨.mult, rfl⟩
      · exact .inl ⟨.div, rfl⟩
      · exact .inl ⟨.mod, rfl⟩
      · exact .inl ⟨.bitAnd, rfl⟩
      · exact .inl ⟨.bitOr, rfl⟩
      · exact .inl ⟨.bitXor, rfl⟩
      · exact .inl ⟨.lt, rfl⟩
      · exact .inl ⟨.gt, rfl⟩
      · exact .inr ⟨.logicalNot, rfl⟩
      · exact .inr ⟨.bitNot, rfl⟩
  all_goals
    rename_i second
    obtain ⟨tail, rfl⟩ := List.head?_eq_some_iff.mp second
    cases found
  case h_1 => exact .inl ⟨.logicalAnd, rfl⟩
  case h_2 => exact .inl ⟨.logicalOr, rfl⟩
  case h_3 => exact .inl ⟨.shl, rfl⟩
  case h_4 => exact .inl ⟨.shr, rfl⟩
  case h_5 => exact .inl ⟨.le, rfl⟩
  case h_6 => exact .inl ⟨.ge, rfl⟩
  case h_7 => exact .inl ⟨.eq, rfl⟩
  case h_8 => exact .inl ⟨.ne, rfl⟩

theorem numberRest_cls (rest : List Char) :
    (numberRest rest).1 = .integer ∨ (numberRest rest).1 = .double := by
  unfold numberRest
  dsimp only
  split
  · exact .inr rfl
  · split
    · exact .inl rfl
    · exact .inr rfl

theorem munch_wellFormed {first : Char} {rest : List Char} {cls : TokenClass} {extra : Nat}
    (found : munch? first rest = some (cls, extra)) (position : Nat) :
    WellFormed ⟨cls, first :: rest.take extra, position⟩ := by
  unfold munch? at found
  split at found
  case isTrue digit =>
      have number := numberRest_cls rest
      simp only [Option.some.injEq] at found
      rw [found] at number
      rcases number with rfl | rfl <;> exact ⟨first, _, rfl, digit⟩
  case isFalse =>
    split at found
    case isTrue starts =>
        cases found
        have inside : (rest.takeWhile continuesIdentifier).all continuesIdentifier = true :=
          List.all_takeWhile
        rw [List.prefix_iff_eq_take.mp (List.takeWhile_prefix continuesIdentifier)] at inside
        simp only [WellFormed, isIdentifier, starts, inside, Bool.and_self]
    case isFalse =>
      split at found
      case isTrue same => cases found; subst same; rfl
      case isFalse =>
        split at found
        case isTrue same => cases found; subst same; rfl
        case isFalse =>
          -- Neither digit, name nor parenthesis: what is left are the operators.
          obtain ⟨length, operator, same⟩ := Option.map_eq_some_iff.mp found
          cases same
          exact isOperator_of_operatorRest operator

theorem operator_first {text : List Char} (operator : IsOperator text) :
    ∃ first rest, text = first :: rest ∧ isDigit first = false ∧
      startsIdentifier first = false ∧ first ≠ '(' ∧ first ≠ ')' := by
  rcases operator with ⟨op, rfl⟩ | ⟨op, rfl⟩ <;> cases op <;>
    exact ⟨_, _, rfl, by decide, by decide, by decide, by decide⟩

theorem cls_of_isOperator {token : Token} (shape : token.WellFormed)
    (operator : IsOperator token.text) : token.cls = .operator := by
  obtain ⟨first, rest, text, noDigit, noStart, noOpen, noClose⟩ := operator_first operator
  cases cls : token.cls with
  | operator => rfl
  | integer | double =>
      simp only [WellFormed, cls, text] at shape
      obtain ⟨_, _, same, digit⟩ := shape
      cases same
      simp [digit] at noDigit
  | identifier =>
      simp only [WellFormed, cls, text, isIdentifier, noStart, Bool.false_and] at shape
      cases shape
  | leftParen =>
      simp only [WellFormed, cls, text] at shape
      cases shape
      exact absurd rfl noOpen
  | rightParen =>
      simp only [WellFormed, cls, text] at shape
      cases shape
      exact absurd rfl noClose

end Token

theorem tokensFrom_wellFormed (position : Nat) (text : List Char) (tokens : List Token)
    (cut : tokensFrom position text = .ok tokens) : ∀ token ∈ tokens, token.WellFormed := by
  fun_induction tokensFrom position text generalizing tokens with
  | case1 position => cases cut; simp
  | case2 position first rest blank ih => exact ih tokens cut
  | case3 position first rest solid stuck => cases cut
  | case4 position first rest solid cls extra found ih =>
      obtain ⟨others, later, whole⟩ := bind_eq_ok.mp cut
      cases whole
      intro token member
      rcases List.mem_cons.mp member with rfl | old
      · exact Token.munch_wellFormed found position
      · exact ih others later token old

end CExpr
