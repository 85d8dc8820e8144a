import CExpr.Draw.Sources
import CExpr.Proofs.Draw.Coupling
import CExpr.Proofs.Expr.Substitution
import CExpr.Proofs.Config.Valid
import CExpr.Proofs.Outcome

/-!
Coins are noise. A coin changes how tightly a tree binds, and so which parentheses the grouping
demands further up. But all of these are parentheses: two runs whose other draws are the same end
with the same error or with trees that differ in parentheses only, and such trees mean the same.
-/
namespace CExpr

namespace Script

structure SameButCoins (script other : Script) : Prop where
  kinds : script.kinds = other.kinds
  bits : script.bits = other.bits
  integers : script.integers = other.integers
  reals : script.reals = other.reals

theorem coupled_pop {α : Type} (queue : Queue) {items : Script → List α}
    {put : Script → List α → Script}
    (same : ∀ script other, script.SameButCoins other → items script = items other)
    (kept : ∀ script other rest, script.SameButCoins other →
      (put script rest).SameButCoins (put other rest)) :
    Coupled SameButCoins Eq (pop queue items put) (pop queue items put) := by
  intro script other start
  unfold pop
  rw [same script other start]
  cases items other with
  | nil => exact ⟨.error _, start⟩
  | cons front rest => exact ⟨.ok rfl, kept script other rest start⟩

theorem overlooks_coins : source.Overlooks SameButCoins where
  choice _ := coupled_pop .kinds (fun _ _ start => start.kinds)
    fun _ _ _ start => { start with kinds := rfl }
  bit _ := coupled_pop .bits (fun _ _ start => start.bits)
    fun _ _ _ start => { start with bits := rfl }
  integer _ _ := coupled_pop .integers (fun _ _ start => start.integers)
    fun _ _ _ start => { start with integers := rfl }
  real _ _ := coupled_pop .reals (fun _ _ start => start.reals)
    fun _ _ _ start => { start with reals := rfl }
  coin _ := by
    rintro ⟨kinds, bits, integers, reals, coins⟩ ⟨_, _, _, _, others⟩ ⟨rfl, rfl, rfl, rfl⟩
    cases coins <;> cases others <;> exact ⟨.ok trivial, rfl, rfl, rfl, rfl⟩

end Script

namespace Generator

variable {σ : Type} {source : Source σ} {rel : σ → σ → Prop} {config : Config} {name : String}

def SameButParens (tree other : Expr) : Prop := tree.withoutParens = other.withoutParens

theorem coupled_ofKind (overlooks : source.Overlooks rel) {operand : Draw σ Expr}
    (below : Coupled rel SameButParens operand operand) (kind : ExprKind) :
    Coupled rel SameButParens (ofKind source config name operand kind)
      (ofKind source config name operand kind) := by
  cases kind with
  | integerConstant =>
      apply (overlooks.integer _ _).bind
      rintro value _ rfl
      exact .pure rfl
  | doubleConstant =>
      apply (overlooks.real _ _).bind
      rintro value _ rfl
      exact .pure rfl
  | variableExpr => exact .pure rfl
  | binaryExpr =>
      apply (overlooks.binOp _).bind
      rintro op _ rfl
      apply below.bind
      intro lhs otherLhs left
      apply below.bind
      intro rhs otherRhs right
      apply Coupled.pure
      -- Whichever operands got parentheses on either side, they are gone on both.
      simp only [SameButParens, Expr.withoutParens_binaryOf] at left right ⊢
      rw [left, right]
  | unaryExpr =>
      apply (overlooks.unOp _).bind
      rintro op _ rfl
      apply below.bind
      intro operand other same
      apply Coupled.pure
      simp only [SameButParens, Expr.withoutParens_unaryOf] at same ⊢
      rw [same]

theorem coupled_draw (overlooks : source.Overlooks rel) (depth : Nat) (weights : Weights) :
    Coupled rel SameButParens (draw source config name depth weights)
      (draw source config name depth weights) := by
  -- What is drawn for a node is coupled if its operands are.
  induction depth generalizing weights with
  | zero => exact .fail .tooDeep
  | succ depth ih =>
      rw [draw]
      apply (overlooks.exprKind weights).bind
      rintro kind _ rfl
      apply (Coupled.ofExcept _).bind
      rintro dampened _ rfl
      apply (coupled_ofKind overlooks (ih dampened) kind).bind
      intro bare other same
      apply (overlooks.coin _).bind
      intro wrapped otherWrapped _
      apply Coupled.pure
      simp only [SameButParens, Expr.withoutParens_guarded]
      exact same

theorem coupled_generate (overlooks : source.Overlooks rel) (config : ValidConfig) (depth : Nat) :
    Coupled rel SameButParens (generate source config name depth)
      (generate source config name depth) := by
  apply (Coupled.ofExcept _).bind
  rintro weights _ rfl
  exact coupled_draw overlooks depth weights

/-- Of two scripts that differ in their coins only, both fail with the same error, or both give
trees that are the same without parentheses and have the same outcome under all bindings. Either way
the same draws are left over. -/
theorem generate_sameButCoins (config : ValidConfig) (name : String) (depth : Nat)
    (script other : Script) (start : script.SameButCoins other) :
    let first := generate Script.source config name depth script
    let second := generate Script.source config name depth other
    ((∃ e, first.1 = .error e ∧ second.1 = .error e) ∨
        ∃ tree twin, first.1 = .ok tree ∧ second.1 = .ok twin ∧
          tree.withoutParens = twin.withoutParens ∧
          ∀ bindings, tree.reference bindings = twin.reference bindings) ∧
      first.2.SameButCoins second.2 := by
  intro first second
  obtain ⟨alike, rest⟩ : Alike SameButParens first.1 second.1 ∧ first.2.SameButCoins second.2 :=
    coupled_generate Script.overlooks_coins config depth script other start
  constructor
  · generalize first.1 = result at alike
    generalize second.1 = twin at alike
    cases alike with
    | error e => exact .inl ⟨e, rfl, rfl⟩
    | @ok tree other same =>
        refine .inr ⟨tree, other, rfl, rfl, same, fun bindings => ?_⟩
        calc tree.reference bindings
          _ = tree.withoutParens.reference bindings := (tree.reference_withoutParens bindings).symm
          _ = other.withoutParens.reference bindings := by rw [same]
          _ = other.reference bindings := other.reference_withoutParens bindings
  · exact rest

/-- `x * (1 + 2)`, where the grouping asks for the parentheses, and `(x) * (1 + 2)`, where every pair
of them is a coin. -/
theorem generate_sameButCoins_product :
    let config : ValidConfig := ⟨.default, Config.default_valid⟩
    let tails : Script := ⟨[3, 2, 3, 0, 0], [2, 0], [1, 2], [], []⟩
    let heads : Script := { tails with coins := [true, false, false, true, false] }
    let sum : Expr := .parens (.binary .plus (.integer 1) (.integer 2))
    let tree : Expr := .binary .mult (.var "x") sum
    let twin : Expr := .binary .mult (.parens (.var "x")) sum
    tails.SameButCoins heads ∧
      (generate Script.source config "x" 3 tails).1 = .ok tree ∧
      (generate Script.source config "x" 3 heads).1 = .ok twin ∧
      ∀ bindings, tree.reference bindings = twin.reference bindings := by
  intro config tails heads sum tree twin
  have start : tails.SameButCoins heads := ⟨rfl, rfl, rfl, rfl⟩
  have first : (generate Script.source config "x" 3 tails).1 = .ok tree :=
    ok_of_toOption (by decide +kernel)
  have second : (generate Script.source config "x" 3 heads).1 = .ok twin :=
    ok_of_toOption (by decide +kernel)
  obtain ⟨⟨e, failed, _⟩ | ⟨_, _, returned, other, _, same⟩, _⟩ :=
    generate_sameButCoins config "x" 3 tails heads start
  · cases first.symm.trans failed
  · cases first.symm.trans returned
    cases second.symm.trans other
    exact ⟨start, first, second, same⟩

end Generator
end CExpr
