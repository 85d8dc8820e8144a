import CExpr.Proofs.Reader.Step

/-!
Reading accepts every tree that is grouped by precedence. When the tokens of such a tree come up
behind a frame that can take the tree as its operand, the reader ends with exactly this tree
completed by the frame. A frame can take a loosely bound tree only if nothing in the frame binds
tighter.
-/
namespace CExpr
open Text

/-- A token of a text that no limit of the reader stands against: a short enough numeral, an allowed
name. -/
structure Token.Readable (allowed : Option (List String)) (token : Token) : Prop where
  wellFormed : token.WellFormed
  short : token.cls = .integer → token.text.length ≤ maxDigits
  listed : token.cls = .identifier → ∀ names ∈ allowed, String.ofList token.text ∈ names

namespace Reader

variable {allowed : Option (List String)}

/-- The tree can follow the frame without being taken apart by what stands before it. -/
def Frame.Takes (frame : Frame) (tree : Expr) : Prop :=
  tree.precedence ≤ UnOp.precedence ∨
    (frame.signs = [] ∧ ∀ pending ∈ frame.left, tree.precedence < pending.2.precedence)

theorem Frame.empty_takes (tree : Expr) : Frame.empty.Takes tree :=
  .inr ⟨rfl, fun _ member => nomatch member⟩

theorem Frame.complete_sign (left : Option (Expr × BinOp)) (signs : List UnOp) (op : UnOp)
    (operand : Expr) :
    Frame.complete ⟨left, op :: signs⟩ operand = Frame.complete ⟨left, signs⟩ (.unary op operand) :=
  rfl

@[simp] theorem Frame.complete_empty (tree : Expr) : Frame.empty.complete tree = tree := rfl

@[simp] theorem Frame.complete_pending (tree : Expr) (op : BinOp) (operand : Expr) :
    Frame.complete ⟨some (tree, op), []⟩ operand = tree.attach op operand := rfl

/-- A frame that takes a whole binary tree also takes it in two steps, left operand first. -/
theorem Frame.complete_attach (frame : Frame) (op : BinOp) (lhs rhs : Expr)
    (takes : frame.Takes (.binary op lhs rhs)) (fits : lhs.precedence ≤ op.precedence) :
    (frame.complete lhs).attach op rhs = frame.complete (.binary op lhs rhs) := by
  obtain ⟨left, signs⟩ := frame
  rcases takes with low | ⟨noSigns, tighter⟩
  · have : op.precedence ≤ 2 := low
    have := op.two_lt_precedence
    omega
  · cases noSigns
    cases left with
    | none => exact Expr.attach_of_le lhs op rhs fits
    | some pending =>
        obtain ⟨tree, outer⟩ := pending
        exact Expr.attach_attach tree outer op lhs rhs (tighter _ rfl) fits

theorem Frame.takes_left (frame : Frame) (op : BinOp) (lhs rhs : Expr)
    (takes : frame.Takes (.binary op lhs rhs)) (fits : lhs.precedence ≤ op.precedence) :
    frame.Takes lhs := by
  rcases takes with low | ⟨noSigns, tighter⟩
  · exact .inl (Nat.le_trans fits low)
  · exact .inr ⟨noSigns, fun pending member => Nat.lt_of_le_of_lt fits (tighter pending member)⟩

theorem leaf_of_lexeme {token : Token} {leaf : Expr} (readable : token.Readable allowed)
    (single : leaf.children = []) (means : [token.lexeme] = leaf.lexemes) :
    Leaf allowed token leaf := by
  cases leaf with
  | integer value =>
      have same : token.lexeme = .integer value := by simpa [Expr.lexemes] using means
      have cls := Token.cls_of_lexeme same
      simp only [Token.lexeme, cls, Lexeme.cls, Lexeme.integer.injEq] at same
      exact same ▸ .integer cls (readable.short cls)
  | double value =>
      have same : token.lexeme = .double value := by simpa [Expr.lexemes] using means
      have cls := Token.cls_of_lexeme same
      simp only [Token.lexeme, cls, Lexeme.cls, Lexeme.double.injEq] at same
      exact same ▸ .double cls
  | var name =>
      have same : token.lexeme = .identifier name := by simpa [Expr.lexemes] using means
      have cls := Token.cls_of_lexeme same
      simp only [Token.lexeme, cls, Lexeme.cls, Lexeme.identifier.injEq] at same
      exact same ▸ .identifier cls (readable.listed cls)
  | unary | binary | parens => cases single

theorem run_leaf {token : Token} {leaf : Expr} (frame : Frame) (stack : List Frame)
    (readable : token.Readable allowed) (single : leaf.children = [])
    (means : [token.lexeme] = leaf.lexemes) :
    [token].foldlM (step allowed) (.expectsOperand frame stack) =
      .ok (.expectsOperator (frame.complete leaf) stack) :=
  run_cons [] (step_of_relation readable.wellFormed
    (.leaf (leaf_of_lexeme readable single means)))

/-- The tokens of a tree turn a frame that takes the tree into the frame completed by it. -/
theorem run_reads (tree : Expr) (tokens : List Token) (frame : Frame) (stack : List Frame)
    (reads : tree.Reads tokens) (readable : ∀ token ∈ tokens, token.Readable allowed)
    (takes : frame.Takes tree) :
    tokens.foldlM (step allowed) (.expectsOperand frame stack) =
      .ok (.expectsOperator (frame.complete tree) stack) := by
  induction tree generalizing tokens frame stack with
  | integer value | double value | var name =>
      obtain ⟨token, rfl, means⟩ := List.map_eq_singleton_iff.mp reads.lexemes
      exact run_leaf frame stack (readable token (by simp)) rfl (by rw [means]; rfl)
  | unary op operand ih =>
      obtain ⟨token, rest, rfl, means, later⟩ := List.map_eq_cons_iff.mp reads.lexemes
      obtain ⟨cls, text⟩ := Token.operator_of_lexeme means
      -- The operand comes up behind one more sign, which only a tight enough operand can follow.
      obtain ⟨fits, grouped⟩ := reads.grouped
      obtain ⟨left, signs⟩ := frame
      have shape := (readable token (by simp)).wellFormed
      rw [run_cons rest (step_of_relation shape (.sign cls text))]
      exact ih rest ⟨left, op :: signs⟩ stack ⟨later, grouped⟩
        (fun token member => readable token (List.mem_cons_of_mem _ member)) (.inl fits)
  | binary op lhs rhs ihLeft ihRight =>
      obtain ⟨before, behind, rfl, left, right⟩ := List.map_eq_append_iff.mp reads.lexemes
      obtain ⟨token, rest, rfl, means, later⟩ := List.map_eq_cons_iff.mp right
      obtain ⟨cls, text⟩ := Token.operator_of_lexeme means
      obtain ⟨fitsLeft, fitsRight, groupedLeft, groupedRight⟩ := reads.grouped
      have shape := (readable token (by simp)).wellFormed
      -- The left operand completes the frame, the operator makes the result pending, and the right
      -- operand is attached to it at the right edge, where the frame had put the left one.
      have first := ihLeft before frame stack ⟨left, groupedLeft⟩
        (fun token member => readable token (List.mem_append_left _ member))
        (frame.takes_left op lhs rhs takes fitsLeft)
      have second := ihRight rest ⟨some (frame.complete lhs, op), []⟩ stack ⟨later, groupedRight⟩
        (fun token member => readable token (by simp [member]))
        (.inr ⟨rfl, fun pending member => by cases member; exact fitsRight⟩)
      rw [run_append (token :: rest) first,
        run_cons rest (step_of_relation shape (.operator cls text)), second,
        Frame.complete_pending, frame.complete_attach op lhs rhs takes fitsLeft]
  | parens inner ih =>
      obtain ⟨opening, others, rfl, opened, behind⟩ := List.map_eq_cons_iff.mp reads.lexemes
      obtain ⟨body, ending, rfl, middle, last⟩ := List.map_eq_append_iff.mp behind
      obtain ⟨closing, rfl, closed⟩ := List.map_eq_singleton_iff.mp last
      -- Inside the parentheses reading starts afresh, with the frame out of reach on the stack.
      have inside := ih body .empty (frame :: stack) ⟨middle, reads.grouped⟩
        (fun token member => readable token (by simp [member])) (Frame.empty_takes inner)
      have shape := (readable opening (by simp)).wellFormed
      have closingShape := (readable closing (by simp)).wellFormed
      rw [run_cons (body ++ [closing])
          (step_of_relation shape (.opening (Token.cls_of_lexeme opened))),
        run_append [closing] inside, Frame.complete_empty,
        run_cons [] (step_of_relation closingShape (.closing (Token.cls_of_lexeme closed)))]
      rfl

theorem readTokens_of_reads (tree : Expr) (tokens : List Token) (endPosition : Nat)
    (reads : tree.Reads tokens) (readable : ∀ token ∈ tokens, token.Readable allowed) :
    readTokens allowed tokens endPosition = .ok tree := by
  exact readTokens_eq_ok.mpr
    (run_reads tree tokens .empty [] reads readable (Frame.empty_takes tree))

end Reader
end CExpr
