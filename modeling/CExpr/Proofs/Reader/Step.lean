import CExpr.Expr.Reader
import CExpr.Proofs.Reader.Grammar
import CExpr.Proofs.Token.Shape

/-!
What one step of reading can do. The relation below lists the transitions with all their guards, and
the step function succeeds exactly along it. Everything about whole runs is derived from this list.
-/
namespace CExpr
open Text

namespace Reader

variable {allowed : Option (List String)}

inductive Leaf (allowed : Option (List String)) (token : Token) : Expr → Prop
  | integer : token.cls = .integer → token.text.length ≤ maxDigits →
      Leaf allowed token (.integer (ofDigits token.text))
  | double : token.cls = .double → Leaf allowed token (.double (.ofNumeral false token.text))
  | identifier : token.cls = .identifier →
      (∀ names ∈ allowed, String.ofList token.text ∈ names) →
      Leaf allowed token (.var (String.ofList token.text))

theorem Leaf.derives {token : Token} {leaf : Expr} (h : Leaf allowed token leaf) :
    Derives allowed .primary [token] := by
  cases h with
  | integer cls _ => exact .integer cls
  | double cls => exact .double cls
  | identifier cls listed => exact .identifier cls listed

theorem Leaf.reads {token : Token} {leaf : Expr} (h : Leaf allowed token leaf) :
    leaf.Reads [token] := by
  cases h with
  | integer cls _ | double cls | identifier cls _ =>
      exact ⟨by simp [Token.lexeme, cls, Expr.lexemes], trivial⟩

theorem Leaf.precedence {token : Token} {leaf : Expr} (h : Leaf allowed token leaf) :
    leaf.precedence = 0 := by
  cases h <;> rfl

inductive Step (allowed : Option (List String)) : State → Token → State → Prop
  | leaf {frame : Frame} {stack : List Frame} {token : Token} {leaf : Expr} :
      Leaf allowed token leaf →
      Step allowed (.expectsOperand frame stack) token
        (.expectsOperator (frame.complete leaf) stack)
  | sign {left : Option (Expr × BinOp)} {signs : List UnOp} {stack : List Frame} {token : Token}
      {op : UnOp} : token.cls = .operator → token.text = op.token →
      Step allowed (.expectsOperand ⟨left, signs⟩ stack) token
        (.expectsOperand ⟨left, op :: signs⟩ stack)
  | opening {frame : Frame} {stack : List Frame} {token : Token} : token.cls = .leftParen →
      Step allowed (.expectsOperand frame stack) token (.expectsOperand .empty (frame :: stack))
  | operator {tree : Expr} {stack : List Frame} {token : Token} {op : BinOp} :
      token.cls = .operator → token.text = op.token →
      Step allowed (.expectsOperator tree stack) token (.expectsOperand ⟨some (tree, op), []⟩ stack)
  | closing {tree : Expr} {frame : Frame} {stack : List Frame} {token : Token} :
      token.cls = .rightParen →
      Step allowed (.expectsOperator tree (frame :: stack)) token
        (.expectsOperator (frame.complete (.parens tree)) stack)

theorem binOp_ofToken_eq_none {token : Token} (shape : token.WellFormed)
    (other : token.cls ≠ .operator) : BinOp.ofToken? token.text = none := by
  cases found : BinOp.ofToken? token.text with
  | none => rfl
  | some op =>
      have operator := Token.cls_of_isOperator shape (.inl ⟨op, BinOp.eq_token_of_ofToken? found⟩)
      exact absurd operator other

theorem unOp_ofToken_eq_none {token : Token} (shape : token.WellFormed)
    (other : token.cls ≠ .operator) : UnOp.ofToken? token.text = none := by
  cases found : UnOp.ofToken? token.text with
  | none => rfl
  | some op =>
      have operator := Token.cls_of_isOperator shape (.inr ⟨op, UnOp.eq_token_of_ofToken? found⟩)
      exact absurd operator other

theorem allowed_all_iff (name : String) :
    allowed.all (·.contains name) = true ↔ ∀ names ∈ allowed, name ∈ names := by
  cases allowed <;> simp

theorem step_of_relation {state next : State} {token : Token} (shape : token.WellFormed)
    (taken : Step allowed state token next) : step allowed state token = .ok next := by
  cases taken with
  | leaf h =>
      cases h with
      | integer cls short => simp [step, cls, readDigits, short]
      | double cls => simp [step, cls]
      | identifier cls listed =>
          simp only [step, cls, (allowed_all_iff _).mpr listed, ↓reduceIte]
  | sign cls text => simp [step, cls, text, UnOp.ofToken?_token]
  | opening cls => simp [step, cls]
  | operator cls text => simp [step, text, BinOp.ofToken?_token]
  | closing cls =>
      have noOperator := binOp_ofToken_eq_none shape (by simp [cls])
      simp [step, noOperator, cls]

theorem relation_of_step {state next : State} {token : Token} (shape : token.WellFormed)
    (taken : step allowed state token = .ok next) : Step allowed state token next := by
  cases state with
  | expectsOperand frame stack =>
      cases cls : token.cls with
      | integer =>
          by_cases short : token.text.length ≤ maxDigits
          · simp only [step, cls, readDigits, short, ↓reduceIte, Except.ok.injEq] at taken
            subst taken
            exact .leaf (.integer cls short)
          · simp [step, cls, readDigits, short] at taken
      | double =>
          simp only [step, cls, Except.ok.injEq] at taken
          subst taken
          exact .leaf (.double cls)
      | identifier =>
          by_cases listed : allowed.all (·.contains (String.ofList token.text)) = true
          · simp only [step, cls, listed, ↓reduceIte, Except.ok.injEq] at taken
            subst taken
            exact .leaf (.identifier cls ((allowed_all_iff _).mp listed))
          · simp only [step, cls, listed] at taken
            cases taken
      | operator =>
          cases found : UnOp.ofToken? token.text with
          | some op =>
              simp only [step, cls, found, Except.ok.injEq] at taken
              subst taken
              exact .sign cls (UnOp.eq_token_of_ofToken? found)
          | none => simp [step, cls, found] at taken
      | leftParen =>
          simp only [step, cls, Except.ok.injEq] at taken
          subst taken
          exact .opening cls
      | rightParen =>
          have noSign := unOp_ofToken_eq_none shape (by simp [cls])
          simp [step, cls, noSign] at taken
  | expectsOperator tree stack =>
      cases found : BinOp.ofToken? token.text with
      | some op =>
          have text := BinOp.eq_token_of_ofToken? found
          simp only [step, found, Except.ok.injEq] at taken
          subst taken
          exact .operator (Token.cls_of_isOperator shape (.inl ⟨op, text⟩)) text
      | none =>
          cases stack with
          | nil => cases cls : token.cls <;> simp [step, found, cls] at taken
          | cons frame stack =>
              cases cls : token.cls <;> simp only [step, found, cls] at taken <;> cases taken
              exact .closing cls

theorem run_cons {state next : State} {token : Token} (tokens : List Token)
    (first : step allowed state token = .ok next) :
    (token :: tokens).foldlM (step allowed) state = tokens.foldlM (step allowed) next := by
  rw [List.foldlM_cons, first]
  rfl

theorem run_cons_eq_ok {state final : State} {token : Token} {tokens : List Token} :
    (token :: tokens).foldlM (step allowed) state = .ok final ↔
      ∃ next, step allowed state token = .ok next ∧
        tokens.foldlM (step allowed) next = .ok final := by
  rw [List.foldlM_cons]
  exact bind_eq_ok

theorem run_append {state middle : State} {before : List Token} (after : List Token)
    (first : before.foldlM (step allowed) state = .ok middle) :
    (before ++ after).foldlM (step allowed) state = after.foldlM (step allowed) middle := by
  rw [List.foldlM_append, first]
  rfl

theorem finish_eq_ok {endPosition : Nat} {final : State} {tree : Expr} :
    finish endPosition final = .ok tree ↔ final = .expectsOperator tree [] := by
  constructor
  · intro returned
    rcases final with ⟨frame, stack⟩ | ⟨found, _ | ⟨frame, stack⟩⟩ <;> cases returned
    rfl
  · rintro rfl
    rfl

theorem readTokens_eq_ok {tokens : List Token} {endPosition : Nat} {tree : Expr} :
    readTokens allowed tokens endPosition = .ok tree ↔
      tokens.foldlM (step allowed) State.start = .ok (.expectsOperator tree []) := by
  rw [readTokens, bind_eq_ok]
  constructor
  · rintro ⟨final, run, ended⟩
    rw [run, finish_eq_ok.mp ended]
  · intro run
    exact ⟨_, run, finish_eq_ok.mpr rfl⟩

end Reader
end CExpr
