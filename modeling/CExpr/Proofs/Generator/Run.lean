import CExpr.Generator
import CExpr.Proofs.Draw.Outcome

/-!
Successful runs of the generator, without a bound on their depth. A run chooses a kind, draws what
the kind needs, with a run for every operand, and tosses for parentheses. Runs are what the
generator does with enough depth: the tree it returns is never shallower than the kinds it drew.
-/
namespace CExpr.Generator

variable {σ : Type}

section Turns

variable (source : Source σ) (config : Config)

structure Chooses (weights : Weights) (s : σ) (kind : ExprKind) (dampened : Weights) (after : σ) :
    Prop where
  drawn : source.exprKind weights s = (.ok kind, after)
  scaled : weights.scale (.expr kind) (config.exprKind kind).dampening = .ok dampened

def wrapped (coin : Bool) (bare : Expr) : Expr := if coin then .parens bare else bare

def Tosses (s : σ) (bare tree : Expr) (after : σ) : Prop :=
  ∃ coin, source.coin config.parenthesize s = (.ok coin, after) ∧ tree = wrapped coin bare

end Turns

/-- A run by given weights from one state of the source to another, and the tree it returns. -/
inductive Run (source : Source σ) (config : Config) (name : String) :
    Weights → σ → Expr → σ → Prop
  | integer {weights dampened : Weights} {s chosen drawn after : σ} {value : Int} {tree : Expr} :
      Chooses source config weights s .integerConstant dampened chosen →
      source.integer config.integerMin config.integerMax chosen = (.ok value, drawn) →
      Tosses source config drawn (.integer value) tree after →
      Run source config name weights s tree after
  | double {weights dampened : Weights} {s chosen drawn after : σ} {value : Double} {tree : Expr} :
      Chooses source config weights s .doubleConstant dampened chosen →
      source.real config.doubleMin config.doubleMax chosen = (.ok value, drawn) →
      Tosses source config drawn (.double value) tree after →
      Run source config name weights s tree after
  | var {weights dampened : Weights} {s chosen after : σ} {tree : Expr} :
      Chooses source config weights s .variableExpr dampened chosen →
      Tosses source config chosen (.var name) tree after →
      Run source config name weights s tree after
  | binary {weights dampened : Weights} {s chosen drawn between behind after : σ} {op : BinOp}
      {lhs rhs tree : Expr} :
      Chooses source config weights s .binaryExpr dampened chosen →
      source.binOp config.binOps chosen = (.ok op, drawn) →
      Run source config name dampened drawn lhs between →
      Run source config name dampened between rhs behind →
      Tosses source config behind (.binaryOf op lhs rhs) tree after →
      Run source config name weights s tree after
  | unary {weights dampened : Weights} {s chosen drawn behind after : σ} {op : UnOp}
      {operand tree : Expr} :
      Chooses source config weights s .unaryExpr dampened chosen →
      source.unOp config.unOps chosen = (.ok op, drawn) →
      Run source config name dampened drawn operand behind →
      Tosses source config behind (.unaryOf op operand) tree after →
      Run source config name weights s tree after

variable {source : Source σ} {config : Config} {name : String}

/-- One level of the generator: a choice, what the kind needs, a toss. -/
theorem draw_succ_eq_ok {depth : Nat} {weights : Weights} {s after : σ} {tree : Expr} :
    draw source config name (depth + 1) weights s = (.ok tree, after) ↔
      ∃ kind dampened chosen bare behind,
        Chooses source config weights s kind dampened chosen ∧
        ofKind source config name (draw source config name depth dampened) kind chosen =
          (.ok bare, behind) ∧
        Tosses source config behind bare tree after := by
  rw [draw]
  constructor
  · intro returned
    obtain ⟨kind, chosen, drawn, returned⟩ := Draw.bind_eq_ok.mp returned
    obtain ⟨dampened, same, scaled, returned⟩ := Draw.bind_eq_ok.mp returned
    obtain ⟨bare, behind, needed, returned⟩ := Draw.bind_eq_ok.mp returned
    obtain ⟨coin, last, tossed, returned⟩ := Draw.bind_eq_ok.mp returned
    obtain ⟨rfl, rfl⟩ := Draw.pure_eq_ok.mp returned
    obtain ⟨product, rfl⟩ := Draw.ofExcept_eq_ok.mp scaled
    exact ⟨kind, dampened, _, bare, behind, ⟨drawn, mapError_eq_ok.mp product⟩, needed, coin,
      tossed, rfl⟩
  · rintro ⟨kind, dampened, chosen, bare, behind, ⟨drawn, scaled⟩, needed, coin, tossed, rfl⟩
    refine Draw.bind_eq_ok.mpr ⟨kind, chosen, drawn, Draw.bind_eq_ok.mpr ⟨dampened, chosen, ?_, ?_⟩⟩
    · exact Draw.ofExcept_eq_ok.mpr ⟨mapError_eq_ok.mpr scaled, rfl⟩
    · exact Draw.bind_eq_ok.mpr ⟨bare, behind, needed,
        Draw.bind_eq_ok.mpr ⟨coin, after, tossed, Draw.pure_eq_ok.mpr ⟨rfl, rfl⟩⟩⟩

theorem run_of_draw {depth : Nat} {weights : Weights} {s after : σ} {tree : Expr}
    (returned : draw source config name depth weights s = (.ok tree, after)) :
    Run source config name weights s tree after := by
  induction depth generalizing weights s tree after with
  | zero => cases returned
  | succ depth ih =>
      obtain ⟨kind, dampened, chosen, bare, behind, chooses, needed, tosses⟩ :=
        draw_succ_eq_ok.mp returned
      -- The kind that was drawn decides what else was drawn before the toss.
      cases kind with
      | integerConstant =>
          obtain ⟨value, drawn, number, same⟩ := Draw.bind_eq_ok.mp needed
          obtain ⟨rfl, rfl⟩ := Draw.pure_eq_ok.mp same
          exact .integer chooses number tosses
      | doubleConstant =>
          obtain ⟨value, drawn, number, same⟩ := Draw.bind_eq_ok.mp needed
          obtain ⟨rfl, rfl⟩ := Draw.pure_eq_ok.mp same
          exact .double chooses number tosses
      | variableExpr =>
          obtain ⟨rfl, rfl⟩ := Draw.pure_eq_ok.mp needed
          exact .var chooses tosses
      | binaryExpr =>
          obtain ⟨op, drawn, picked, operands⟩ := Draw.bind_eq_ok.mp needed
          obtain ⟨lhs, between, left, operands⟩ := Draw.bind_eq_ok.mp operands
          obtain ⟨rhs, last, right, same⟩ := Draw.bind_eq_ok.mp operands
          obtain ⟨rfl, rfl⟩ := Draw.pure_eq_ok.mp same
          exact .binary chooses picked (ih left) (ih right) tosses
      | unaryExpr =>
          obtain ⟨op, drawn, picked, operands⟩ := Draw.bind_eq_ok.mp needed
          obtain ⟨operand, last, below, same⟩ := Draw.bind_eq_ok.mp operands
          obtain ⟨rfl, rfl⟩ := Draw.pure_eq_ok.mp same
          exact .unary chooses picked (ih below) tosses

/-! Trees are at least as deep as the kinds that were drawn for them. -/
section Depth

theorem depth_pos (e : Expr) : 0 < e.depth := by
  cases e <;> simp [Expr.depth]

theorem depth_le_wrapped (coin : Bool) (bare : Expr) : bare.depth ≤ (wrapped coin bare).depth := by
  cases coin with
  | false => exact Nat.le_refl _
  | true => exact Nat.le_succ _

theorem depth_lt_binaryOf (op : BinOp) (lhs rhs : Expr) :
    lhs.depth < (Expr.binaryOf op lhs rhs).depth ∧
      rhs.depth < (Expr.binaryOf op lhs rhs).depth := by
  unfold Expr.binaryOf
  dsimp only
  split <;> split <;> simp only [Expr.depth] <;> omega

theorem depth_lt_unaryOf (op : UnOp) (operand : Expr) :
    operand.depth < (Expr.unaryOf op operand).depth := by
  unfold Expr.unaryOf
  split <;> simp only [Expr.depth] <;> omega

theorem Tosses.depth_le {s after : σ} {bare tree : Expr}
    (tosses : Tosses source config s bare tree after) : bare.depth ≤ tree.depth := by
  obtain ⟨coin, _, rfl⟩ := tosses
  exact depth_le_wrapped coin bare

end Depth

theorem Tosses.exists_depth {s after : σ} {bare tree : Expr}
    (tosses : Tosses source config s bare tree after) {depth : Nat} (enough : tree.depth ≤ depth) :
    ∃ below, depth = below + 1 ∧ bare.depth ≤ below + 1 := by
  have := depth_pos tree
  have := tosses.depth_le
  exact ⟨depth - 1, by omega, by omega⟩

theorem draw_of_run {weights : Weights} {s after : σ} {tree : Expr}
    (run : Run source config name weights s tree after) {depth : Nat}
    (enough : tree.depth ≤ depth) :
    draw source config name depth weights s = (.ok tree, after) := by
  induction run generalizing depth with
  | integer chooses number tosses | double chooses number tosses =>
      obtain ⟨below, rfl, _⟩ := tosses.exists_depth enough
      exact draw_succ_eq_ok.mpr ⟨_, _, _, _, _, chooses,
        Draw.bind_eq_ok.mpr ⟨_, _, number, Draw.pure_eq_ok.mpr ⟨rfl, rfl⟩⟩, tosses⟩
  | var chooses tosses =>
      obtain ⟨below, rfl, _⟩ := tosses.exists_depth enough
      exact draw_succ_eq_ok.mpr ⟨_, _, _, _, _, chooses, Draw.pure_eq_ok.mpr ⟨rfl, rfl⟩, tosses⟩
  | @binary _ _ _ _ _ _ _ _ op lhs rhs _ chooses picked _ _ tosses left right =>
      obtain ⟨below, rfl, bare⟩ := tosses.exists_depth enough
      obtain ⟨leftBelow, rightBelow⟩ := depth_lt_binaryOf op lhs rhs
      exact draw_succ_eq_ok.mpr ⟨_, _, _, _, _, chooses,
        Draw.bind_eq_ok.mpr ⟨_, _, picked,
          Draw.bind_eq_ok.mpr ⟨_, _, left (by omega),
            Draw.bind_eq_ok.mpr ⟨_, _, right (by omega), Draw.pure_eq_ok.mpr ⟨rfl, rfl⟩⟩⟩⟩, tosses⟩
  | @unary _ _ _ _ _ _ _ op operand _ chooses picked _ tosses ih =>
      obtain ⟨below, rfl, bare⟩ := tosses.exists_depth enough
      have := depth_lt_unaryOf op operand
      exact draw_succ_eq_ok.mpr ⟨_, _, _, _, _, chooses,
        Draw.bind_eq_ok.mpr ⟨_, _, picked,
          Draw.bind_eq_ok.mpr ⟨_, _, ih (by omega), Draw.pure_eq_ok.mpr ⟨rfl, rfl⟩⟩⟩, tosses⟩

end CExpr.Generator
