import CExpr.Proofs.Reader.Acceptance

/-!
Whatever the reader returns is derived by the grammar and grouped by precedence. Each state accounts
for every token read so far: the frames on the stack, each with the parenthesis that closed it off,
and behind them what the present frame or the present tree stands for. A step moves one token from
the rest of the text into this account.
-/
namespace CExpr
open Text

namespace Reader

variable {allowed : Option (List String)}

structure Built (allowed : Option (List String)) (category : Category) (tree : Expr)
    (tokens : List Token) : Prop where
  derived : Derives allowed category tokens
  reads : tree.Reads tokens
  level : tree.precedence ≤ category.level

inductive FrameHolds (allowed : Option (List String)) : Frame → List Token → Prop
  | empty : FrameHolds allowed .empty []
  | pending {tree : Expr} {op : BinOp} {token : Token} {tokens : List Token} :
      Built allowed .expression tree tokens → token.cls = .operator → token.text = op.token →
      FrameHolds allowed ⟨some (tree, op), []⟩ (tokens ++ [token])
  | sign {left : Option (Expr × BinOp)} {signs : List UnOp} {op : UnOp} {token : Token}
      {tokens : List Token} : FrameHolds allowed ⟨left, signs⟩ tokens →
      token.cls = .operator → token.text = op.token →
      FrameHolds allowed ⟨left, op :: signs⟩ (tokens ++ [token])

inductive StackHolds (allowed : Option (List String)) : List Frame → List Token → Prop
  | nil : StackHolds allowed [] []
  | cons {frame : Frame} {stack : List Frame} {before inside : List Token} {opening : Token} :
      StackHolds allowed stack before → FrameHolds allowed frame inside →
      opening.cls = .leftParen →
      StackHolds allowed (frame :: stack) (before ++ (inside ++ [opening]))

def Holds (allowed : Option (List String)) : State → List Token → Prop
  | .expectsOperand frame stack, tokens =>
    ∃ before inside, StackHolds allowed stack before ∧ FrameHolds allowed frame inside ∧
      tokens = before ++ inside
  | .expectsOperator tree stack, tokens =>
    ∃ before inside, StackHolds allowed stack before ∧ Built allowed .expression tree inside ∧
      tokens = before ++ inside

theorem start_holds : Holds allowed .start [] := ⟨[], [], .nil, .empty, rfl⟩

theorem Leaf.built {token : Token} {leaf : Expr} (h : Leaf allowed token leaf) :
    Built allowed .operand leaf [token] :=
  ⟨.primary h.derives, h.reads, by rw [h.precedence]; exact Nat.zero_le _⟩

theorem Built.parens {inner : Expr} {opening closing : Token} {tokens : List Token}
    (opened : opening.cls = .leftParen) (built : Built allowed .expression inner tokens)
    (closed : closing.cls = .rightParen) :
    Built allowed .operand (.parens inner) (opening :: tokens ++ [closing]) :=
  ⟨.primary (.parens opened built.derived closed), built.reads.parens opened closed, Nat.zero_le _⟩

theorem FrameHolds.complete {frame : Frame} {inside tokens : List Token} {operand : Expr}
    (holds : FrameHolds allowed frame inside) (built : Built allowed .operand operand tokens) :
    Built allowed .expression (frame.complete operand) (inside ++ tokens) := by
  -- On the signs: the innermost one is the last to have been read and the first to take the operand.
  induction holds generalizing operand tokens with
  | empty => exact ⟨.operand built.derived, built.reads, operand.precedence_le_loosest⟩
  | @pending tree op token lhs left cls text =>
      rw [List.append_assoc]
      exact ⟨.chain left.derived cls text built.derived,
        left.reads.attach cls text built.reads built.level, Expr.precedence_le_loosest _⟩
  | @sign left signs op token inside _ cls text ih =>
      rw [List.append_assoc, Frame.complete_sign]
      exact ih ⟨.sign cls text built.derived, .unary cls text built.reads built.level,
        Nat.le_refl _⟩

theorem step_holds {state next : State} {token : Token} {tokens : List Token}
    (taken : Step allowed state token next) (holds : Holds allowed state tokens) :
    Holds allowed next (tokens ++ [token]) := by
  cases taken with
  | leaf h =>
      obtain ⟨before, inside, stackHolds, frameHolds, rfl⟩ := holds
      exact ⟨before, inside ++ [token], stackHolds, frameHolds.complete h.built,
        List.append_assoc ..⟩
  | sign cls text =>
      obtain ⟨before, inside, stackHolds, frameHolds, rfl⟩ := holds
      exact ⟨before, inside ++ [token], stackHolds, frameHolds.sign cls text,
        List.append_assoc ..⟩
  | opening cls =>
      obtain ⟨before, inside, stackHolds, frameHolds, rfl⟩ := holds
      exact ⟨before ++ (inside ++ [token]), [], stackHolds.cons frameHolds cls, .empty,
        by simp⟩
  | operator cls text =>
      obtain ⟨before, inside, stackHolds, built, rfl⟩ := holds
      exact ⟨before, inside ++ [token], stackHolds, .pending built cls text,
        List.append_assoc ..⟩
  | @closing tree frame stack token cls =>
      obtain ⟨before, inside, stackHolds, built, rfl⟩ := holds
      cases stackHolds with
      -- The parenthesis that opened is the last token that the frame on the stack accounts for.
      | @cons _ _ outer frameTokens opening stackHolds frameHolds opened =>
          have whole := frameHolds.complete (built.parens opened cls)
          exact ⟨outer, _, stackHolds, whole, by simp⟩

theorem run_holds {tokens read : List Token} {state final : State}
    (shapes : ∀ token ∈ tokens, token.WellFormed) (holds : Holds allowed state read)
    (run : tokens.foldlM (step allowed) state = .ok final) :
    Holds allowed final (read ++ tokens) := by
  induction tokens generalizing state read with
  | nil =>
      cases run
      simpa using holds
  | cons token rest ih =>
      obtain ⟨next, first, run⟩ := run_cons_eq_ok.mp run
      have taken := relation_of_step (shapes token (by simp)) first
      have later := ih (fun other member => shapes other (List.mem_cons_of_mem _ member))
        (step_holds taken holds) run
      simpa using later

theorem built_of_readTokens {tokens : List Token} {endPosition : Nat} {tree : Expr}
    (shapes : ∀ token ∈ tokens, token.WellFormed)
    (returned : readTokens allowed tokens endPosition = .ok tree) :
    Built allowed .expression tree tokens := by
  have holds := run_holds shapes start_holds (readTokens_eq_ok.mp returned)
  obtain ⟨before, inside, stackHolds, built, same⟩ := holds
  cases stackHolds
  simp only [List.nil_append] at same
  exact same ▸ built

end Reader
end CExpr
