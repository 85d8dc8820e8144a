import CExpr.Proofs.Draw.KeepingUp
import CExpr.Proofs.Expr.Equivalence
import CExpr.Generator

/-!
The name of the variable is no more than a label. Generating over another name makes the same draws,
ends with the same error or with the same tree over the other name, and so does generating with a
grant that is not used up.
-/
namespace CExpr

namespace Expr

def renamed (name : String) : Expr → Expr
  | integer value => integer value
  | double value => double value
  | var _ => var name
  | unary op operand => unary op (operand.renamed name)
  | binary op lhs rhs => binary op (lhs.renamed name) (rhs.renamed name)
  | parens inner => parens (inner.renamed name)

variable {name : String}

@[simp] theorem precedence_renamed (e : Expr) : (e.renamed name).precedence = e.precedence := by
  cases e <;> rfl

theorem renamed_guarded {p : Prop} [Decidable p] (e : Expr) :
    (if p then parens e else e).renamed name =
      if p then parens (e.renamed name) else e.renamed name := by
  split <;> rfl

theorem renamed_binaryOf (op : BinOp) (lhs rhs : Expr) :
    (binaryOf op lhs rhs).renamed name = binaryOf op (lhs.renamed name) (rhs.renamed name) := by
  simp only [binaryOf, renamed, renamed_guarded, precedence_renamed]

theorem renamed_unaryOf (op : UnOp) (operand : Expr) :
    (unaryOf op operand).renamed name = unaryOf op (operand.renamed name) := by
  simp only [unaryOf, renamed, renamed_guarded, precedence_renamed]

theorem mem_names_renamed {e : Expr} {other : String} (member : other ∈ (e.renamed name).names) :
    other = name := by
  induction e with
  | integer value | double value => cases member
  | var old => exact List.mem_singleton.mp member
  | unary op operand ih | parens operand ih => exact ih member
  | binary op lhs rhs left right => exact (List.mem_append.mp member).elim left right

end Expr

namespace Generator

variable {σ τ : Type} {source : Source σ} {target : Source τ} {apart : DrawError → Prop}
  {rel : σ → τ → Prop} {config : Config} {name : String}

def Renames (other : String) (tree twin : Expr) : Prop := tree.renamed other = twin

theorem keepsUp_ofKind (after : source.GoesAfter apart rel target) {operand : Draw σ Expr}
    {twin : Draw τ Expr} {other : String} (below : KeepsUp apart rel (Renames other) operand twin)
    (kind : ExprKind) :
    KeepsUp apart rel (Renames other) (ofKind source config name operand kind)
      (ofKind target config other twin kind) := by
  cases kind with
  | integerConstant =>
      apply (after.integer _ _).bind
      rintro value _ rfl
      exact .pure rfl
  | doubleConstant =>
      apply (after.real _ _).bind
      rintro value _ rfl
      exact .pure rfl
  | variableExpr => exact .pure rfl
  | binaryExpr =>
      apply (KeepsUp.drawn _ _ (after.bit _)).bind
      rintro op _ rfl
      apply below.bind
      rintro lhs _ rfl
      apply below.bind
      rintro rhs _ rfl
      exact .pure (Expr.renamed_binaryOf op lhs rhs)
  | unaryExpr =>
      apply (KeepsUp.drawn _ _ (after.bit _)).bind
      rintro op _ rfl
      apply below.bind
      rintro operand _ rfl
      exact .pure (Expr.renamed_unaryOf op operand)

theorem keepsUp_draw (after : source.GoesAfter apart rel target) (other : String) (depth : Nat)
    (weights : Weights) :
    KeepsUp apart rel (Renames other) (draw source config name depth weights)
      (draw target config other depth weights) := by
  -- What is drawn for a node keeps up if its operands do.
  induction depth generalizing weights with
  | zero => exact (Coupled.fail .tooDeep).keepsUp
  | succ depth ih =>
      rw [draw, draw]
      apply (KeepsUp.drawn _ _ (after.choice _)).bind
      rintro kind _ rfl
      apply (Coupled.ofExcept _).keepsUp.bind
      rintro dampened _ rfl
      apply (keepsUp_ofKind after (ih dampened) kind).bind
      rintro bare _ rfl
      apply (after.coin _).bind
      rintro wrapped _ rfl
      exact .pure (Expr.renamed_guarded bare)

theorem keepsUp_generate (after : source.GoesAfter apart rel target) (config : ValidConfig)
    (other : String) (depth : Nat) :
    KeepsUp apart rel (Renames other) (generate source config name depth)
      (generate target config other depth) := by
  apply (Coupled.ofExcept _).keepsUp.bind
  rintro weights _ rfl
  exact keepsUp_draw after other depth weights

/-- How a generation over another name ends, unless the one that it goes after is set apart. -/
theorem generate_renamed (after : source.GoesAfter apart rel target) (config : ValidConfig)
    (name other : String) (depth : Nat) {s : σ} {t : τ} (start : rel s t) :
    match generate source config name depth s with
    | (.ok tree, left) => ∃ right, rel left right ∧
        generate target config other depth t = (.ok (tree.renamed other), right)
    | (.error e, left) => apart e ∨ ∃ right, rel left right ∧
        generate target config other depth t = (.error e, right) := by
  have ends : KeepsUp apart rel (Renames other) (generate source config name depth)
    (generate target config other depth) := keepsUp_generate after config other depth
  replace ends := ends s t start
  generalize generate source config name depth s = drawn at ends ⊢
  generalize generate target config other depth t = twin at ends ⊢
  obtain ⟨result, left⟩ := drawn
  obtain ⟨_, right⟩ := twin
  -- Only the generation that is gone after can break off, so the other one is not looked at then.
  rcases ends with ⟨e, broken, rfl⟩ | ⟨alike, related⟩
  · exact .inl broken
  · cases alike with
    | error e => exact .inr ⟨right, related, rfl⟩
    | ok same => exact ⟨right, related, congrArg (fun tree => (Except.ok tree, right)) same.symm⟩

theorem renamed_of_generate {config : ValidConfig} {depth : Nat} {s after : σ} {tree : Expr}
    (returned : generate source config name depth s = (.ok tree, after)) :
    tree.renamed name = tree := by
  rcases keepsUp_generate source.goesAfter_self config name depth s s rfl with
    ⟨_, never, _⟩ | ⟨alike, _⟩
  · exact never.elim
  · rw [returned] at alike
    cases alike with
    | ok same => exact same

end Generator
end CExpr
