import CExpr.Draw.Sources
import CExpr.Expr.Basic
import CExpr.Proofs.Expr.Pieces
import CExpr.Proofs.Generator.Run
import CExpr.Proofs.Weights.Legal

/-!
Which trees the generator can return, and how much a tree tells about the draws behind it. Whatever
the source, a tree that comes out is grouped by precedence and has no parentheses directly in
parentheses. A script can make the generator return every such tree: each of its parentheses is
blamed on a coin, which makes the parentheses that grouping would demand unnecessary. All queues but
that of the coins can be read off the tree.
-/
namespace CExpr

namespace Expr

def SingleParens : Expr → Prop
  | unary _ operand => operand.SingleParens
  | binary _ lhs rhs => lhs.SingleParens ∧ rhs.SingleParens
  | parens inner => (∀ body, inner ≠ parens body) ∧ inner.SingleParens
  | _ => True

def IsNamed (name : String) : Expr → Prop
  | var other => other = name
  | _ => True

structure Drawable (name : String) (tree : Expr) : Prop where
  grouped : tree.PrecedenceCorrect
  single : tree.SingleParens
  named : tree.EveryLeaf (IsNamed name)

namespace Drawable

variable {name : String} {tree lhs rhs operand : Expr}

theorem parens (drawable : Drawable name tree) (bare : ∀ body, tree ≠ .parens body) :
    Drawable name (.parens tree) :=
  ⟨drawable.grouped, ⟨bare, drawable.single⟩, drawable.named⟩

theorem ne_parens_of_precedence (loose : 0 < tree.precedence) : ∀ body, tree ≠ .parens body := by
  rintro body rfl
  exact absurd loose (Nat.lt_irrefl 0)

theorem guarded (drawable : Drawable name tree) {p : Prop} [Decidable p]
    (loose : p → 0 < tree.precedence) : Drawable name (if p then .parens tree else tree) := by
  by_cases wraps : p
  · rw [if_pos wraps]
    exact drawable.parens (ne_parens_of_precedence (loose wraps))
  · rw [if_neg wraps]
    exact drawable

theorem binaryOf (op : BinOp) (left : Drawable name lhs) (right : Drawable name rhs) :
    Drawable name (.binaryOf op lhs rhs) := by
  have positive := op.two_lt_precedence
  have leftGuarded := left.guarded (p := op.precedence < lhs.precedence) (by omega)
  have rightGuarded := right.guarded (p := op.precedence ≤ rhs.precedence) (by omega)
  have leftFits : (if op.precedence < lhs.precedence then Expr.parens lhs else lhs).precedence ≤
      op.precedence := by
    split
    · exact Nat.zero_le _
    · omega
  have rightFits : (if op.precedence ≤ rhs.precedence then Expr.parens rhs else rhs).precedence <
      op.precedence := by
    split
    · exact Nat.lt_of_le_of_lt (Nat.zero_le 2) positive
    · omega
  exact ⟨⟨leftFits, rightFits, leftGuarded.grouped, rightGuarded.grouped⟩,
    ⟨leftGuarded.single, rightGuarded.single⟩, ⟨leftGuarded.named, rightGuarded.named⟩⟩

theorem unaryOf (op : UnOp) (below : Drawable name operand) :
    Drawable name (.unaryOf op operand) := by
  have guarded := below.guarded (p := UnOp.precedence < operand.precedence) (by omega)
  have fits : (if UnOp.precedence < operand.precedence then Expr.parens operand
      else operand).precedence ≤ UnOp.precedence := by
    split
    · exact Nat.zero_le _
    · omega
  exact ⟨⟨fits, guarded.grouped⟩, guarded.single, guarded.named⟩

end Drawable
end Expr

namespace Generator

variable {σ : Type} {source : Source σ} {config : Config} {name : String}

theorem Tosses.drawable {s after : σ} {bare tree : Expr}
    (tosses : Tosses source config s bare tree after) (drawable : bare.Drawable name)
    (unwrapped : ∀ body, bare ≠ .parens body) : tree.Drawable name := by
  obtain ⟨coin, _, rfl⟩ := tosses
  cases coin with
  | false => exact drawable
  | true => exact drawable.parens unwrapped

/-- Every run, from whatever source, returns a tree that can be drawn. -/
theorem Run.drawable {weights : Weights} {s after : σ} {tree : Expr}
    (run : Run source config name weights s tree after) : tree.Drawable name := by
  induction run with
  | integer _ _ tosses => exact tosses.drawable ⟨trivial, trivial, trivial⟩ nofun
  | double _ _ tosses => exact tosses.drawable ⟨trivial, trivial, trivial⟩ nofun
  | var _ tosses => exact tosses.drawable ⟨trivial, trivial, rfl⟩ nofun
  | binary _ _ _ _ tosses left right => exact tosses.drawable (.binaryOf _ left right) nofun
  | unary _ _ _ tosses below => exact tosses.drawable (.unaryOf _ below) nofun

end Generator

namespace Expr

/-! What a tree tells about the draws behind it. -/
section Draws

/-- What the nodes other than parentheses contribute, each node before its operands. -/
def gather {α : Type} (contributes : Expr → List α) : Expr → List α
  | unary op operand => contributes (unary op operand) ++ operand.gather contributes
  | binary op lhs rhs =>
    contributes (binary op lhs rhs) ++ lhs.gather contributes ++ rhs.gather contributes
  | parens inner => inner.gather contributes
  | leaf => contributes leaf

def drawnKind : Expr → List Int
  | integer _ => [ExprKind.integerConstant.index.val]
  | double _ => [ExprKind.doubleConstant.index.val]
  | var _ => [ExprKind.variableExpr.index.val]
  | binary .. => [ExprKind.binaryExpr.index.val]
  | unary .. => [ExprKind.unaryExpr.index.val]
  | parens _ => []

def drawnBit : Expr → List Int
  | binary op _ _ => [op.index]
  | unary op _ => [op.index]
  | _ => []

def drawnInteger : Expr → List Int
  | integer value => [value]
  | _ => []

def drawnReal : Expr → List Double
  | double value => [value]
  | _ => []

/-- Coins that put every pair of parentheses of a tree there, each node after its operands; the last
one is that of the root. -/
def coins (wrapped : Bool) : Expr → List Bool
  | unary _ operand => operand.coins false ++ [wrapped]
  | binary _ lhs rhs => lhs.coins false ++ rhs.coins false ++ [wrapped]
  | parens inner => inner.coins true
  | _ => [wrapped]

theorem gather_binaryOf {α : Type} {contributes : Expr → List α} {op : BinOp} {lhs rhs : Expr}
    (blind : ∀ left right, contributes (binary op left right) = contributes (binary op lhs rhs)) :
    (binaryOf op lhs rhs).gather contributes = (binary op lhs rhs).gather contributes := by
  unfold binaryOf
  dsimp only
  split <;> split <;>
    exact congrArg (· ++ lhs.gather contributes ++ rhs.gather contributes) (blind _ _)

theorem gather_unaryOf {α : Type} {contributes : Expr → List α} {op : UnOp} {operand : Expr}
    (blind : ∀ below, contributes (unary op below) = contributes (unary op operand)) :
    (unaryOf op operand).gather contributes = (unary op operand).gather contributes := by
  unfold unaryOf
  split <;> exact congrArg (· ++ operand.gather contributes) (blind _)

end Draws
end Expr

namespace Script

def before (rest : Script) (tree : Expr) (coins : List Bool) : Script where
  kinds := tree.gather Expr.drawnKind ++ rest.kinds
  bits := tree.gather Expr.drawnBit ++ rest.bits
  integers := tree.gather Expr.drawnInteger ++ rest.integers
  reals := tree.gather Expr.drawnReal ++ rest.reals
  coins := coins ++ rest.coins

/-- The draws of a node come before those of its operand, but for the coin, which comes behind. -/
theorem before_unary (rest : Script) (op : UnOp) (operand : Expr) (coin : Bool) :
    let behind : Script := { rest with coins := coin :: rest.coins }
    let drawn := behind.before operand (operand.coins false)
    rest.before (.unary op operand) ((Expr.unary op operand).coins coin) =
      { drawn with bits := op.index :: drawn.bits,
                   kinds := ExprKind.unaryExpr.index.val :: drawn.kinds } := by
  simp [before, Expr.gather, Expr.drawnKind, Expr.drawnBit, Expr.drawnInteger, Expr.drawnReal,
    Expr.coins]

theorem before_binary (rest : Script) (op : BinOp) (lhs rhs : Expr) (coin : Bool) :
    let behind : Script := { rest with coins := coin :: rest.coins }
    let between := behind.before rhs (rhs.coins false)
    let drawn := between.before lhs (lhs.coins false)
    rest.before (.binary op lhs rhs) ((Expr.binary op lhs rhs).coins coin) =
      { drawn with bits := op.index :: drawn.bits,
                   kinds := ExprKind.binaryExpr.index.val :: drawn.kinds } := by
  simp [before, Expr.gather, Expr.drawnKind, Expr.drawnBit, Expr.drawnInteger, Expr.drawnReal,
    Expr.coins]

/-! A draw from a queue succeeds when the value is in front of what it leaves. -/
section Primitives

variable {s after : Script}

theorem choice_eq_ok {weights : List Double} {index : Int} :
    source.choice weights s = (.ok index, after) ↔
      s = { after with kinds := index :: after.kinds } := by
  obtain ⟨kinds, bits, integers, reals, coins⟩ := s
  cases after
  cases kinds <;> simp [source, pop, and_assoc]

theorem bit_eq_ok {mask : Mask} {index : Int} :
    source.bit mask s = (.ok index, after) ↔ s = { after with bits := index :: after.bits } := by
  obtain ⟨kinds, bits, integers, reals, coins⟩ := s
  cases after
  cases bits <;> simp [source, pop, and_assoc, and_left_comm]

theorem integer_eq_ok {lo hi value : Int} :
    source.integer lo hi s = (.ok value, after) ↔
      s = { after with integers := value :: after.integers } := by
  obtain ⟨kinds, bits, integers, reals, coins⟩ := s
  cases after
  cases integers <;> simp [source, pop, and_assoc, and_left_comm]

theorem real_eq_ok {lo hi value : Double} :
    source.real lo hi s = (.ok value, after) ↔
      s = { after with reals := value :: after.reals } := by
  obtain ⟨kinds, bits, integers, reals, coins⟩ := s
  cases after
  cases reals <;> simp [source, pop, and_assoc, and_left_comm]

theorem coin_eq_ok {probability : Double} {coin : Bool} :
    source.coin probability s = (.ok coin, after) ↔
      s = { after with coins := coin :: after.coins } ∨
        (coin = false ∧ s.coins = [] ∧ s = after) := by
  obtain ⟨kinds, bits, integers, reals, coins⟩ := s
  cases after
  cases coins <;> cases coin <;> simp [source, and_left_comm]

end Primitives

/-- The draws between two states are those of a tree, whatever the coins. -/
structure Consumes (tree : Expr) (s after : Script) : Prop where
  kinds : s.kinds = tree.gather Expr.drawnKind ++ after.kinds
  bits : s.bits = tree.gather Expr.drawnBit ++ after.bits
  integers : s.integers = tree.gather Expr.drawnInteger ++ after.integers
  reals : s.reals = tree.gather Expr.drawnReal ++ after.reals

namespace Consumes

variable {s after : Script}

theorem binaryOf {op : BinOp} {lhs rhs : Expr} (consumes : Consumes (.binary op lhs rhs) s after) :
    Consumes (.binaryOf op lhs rhs) s after := by
  obtain ⟨kinds, bits, integers, reals⟩ := consumes
  constructor
  · rw [Expr.gather_binaryOf fun _ _ => rfl, kinds]
  · rw [Expr.gather_binaryOf fun _ _ => rfl, bits]
  · rw [Expr.gather_binaryOf fun _ _ => rfl, integers]
  · rw [Expr.gather_binaryOf fun _ _ => rfl, reals]

theorem unaryOf {op : UnOp} {operand : Expr} (consumes : Consumes (.unary op operand) s after) :
    Consumes (.unaryOf op operand) s after := by
  obtain ⟨kinds, bits, integers, reals⟩ := consumes
  constructor
  · rw [Expr.gather_unaryOf fun _ => rfl, kinds]
  · rw [Expr.gather_unaryOf fun _ => rfl, bits]
  · rw [Expr.gather_unaryOf fun _ => rfl, integers]
  · rw [Expr.gather_unaryOf fun _ => rfl, reals]

end Consumes
end Script

namespace Generator

variable {config : Config} {name : String} {s after : Script}

theorem Chooses.queues {weights dampened : Weights} {kind : ExprKind}
    (chooses : Chooses Script.source config weights s kind dampened after) :
    s = { after with kinds := kind.index.val :: after.kinds } :=
  Script.choice_eq_ok.mp (Source.exprKind_eq_ok.mp chooses.drawn)

theorem Tosses.consumes {bare tree : Expr} {start : Script}
    (tosses : Tosses Script.source config s bare tree after)
    (consumes : Script.Consumes bare start s) : Script.Consumes tree start after := by
  obtain ⟨coin, tossed, rfl⟩ := tosses
  obtain ⟨kinds, bits, integers, reals⟩ := consumes
  -- With the coin from the queue or by default, the other four queues are as they were.
  rcases Script.coin_eq_ok.mp tossed with rfl | ⟨_, _, rfl⟩ <;> cases coin <;>
    exact ⟨kinds, bits, integers, reals⟩

/-- A run takes from the queues what can be read off the tree, and nothing else. -/
theorem Run.consumes {weights : Weights} {tree : Expr}
    (run : Run Script.source config name weights s tree after) :
    Script.Consumes tree s after := by
  induction run with
  | integer chooses number tosses =>
      cases chooses.queues
      cases Script.integer_eq_ok.mp number
      exact tosses.consumes ⟨rfl, rfl, rfl, rfl⟩
  | double chooses number tosses =>
      cases chooses.queues
      cases Script.real_eq_ok.mp number
      exact tosses.consumes ⟨rfl, rfl, rfl, rfl⟩
  | var chooses tosses =>
      cases chooses.queues
      exact tosses.consumes ⟨rfl, rfl, rfl, rfl⟩
  | binary chooses picked _ _ tosses left right =>
      cases chooses.queues
      cases Script.bit_eq_ok.mp (Source.binOp_eq_ok.mp picked)
      apply tosses.consumes (Script.Consumes.binaryOf _)
      constructor <;> simp [Expr.gather, Expr.drawnKind, Expr.drawnBit, Expr.drawnInteger,
        Expr.drawnReal, left.kinds, left.bits, left.integers, left.reals, right.kinds, right.bits,
        right.integers, right.reals]
  | unary chooses picked _ tosses below =>
      cases chooses.queues
      cases Script.bit_eq_ok.mp (Source.unOp_eq_ok.mp picked)
      apply tosses.consumes (Script.Consumes.unaryOf _)
      constructor <;> simp [Expr.gather, Expr.drawnKind, Expr.drawnBit, Expr.drawnInteger,
        Expr.drawnReal, below.kinds, below.bits, below.integers, below.reals]

/-! A script for a given tree. -/
section Completeness

variable {tree : Expr} {rest : Script}

theorem chooses_of_legal (legal : config.Legal) (weights : Weights) (kind : ExprKind)
    (after : Script) :
    ∃ dampened, Chooses Script.source config weights
      { after with kinds := kind.index.val :: after.kinds } kind dampened after := by
  obtain ⟨dampened, scaled⟩ := weights.scale_ok (.expr kind) (legal.dampens kind)
  exact ⟨dampened, Source.exprKind_eq_ok.mpr (Script.choice_eq_ok.mpr rfl), scaled⟩

theorem tosses_coin (coin : Bool) (bare : Expr) (after : Script) :
    Tosses Script.source config { after with coins := coin :: after.coins } bare
      (wrapped coin bare) after :=
  ⟨coin, Script.coin_eq_ok.mpr (.inl rfl), rfl⟩

theorem binaryOf_of_fits {op : BinOp} {lhs rhs : Expr} (left : lhs.precedence ≤ op.precedence)
    (right : rhs.precedence < op.precedence) : Expr.binaryOf op lhs rhs = .binary op lhs rhs := by
  rw [Expr.binaryOf, if_neg (Nat.not_lt_of_le left), if_neg (Nat.not_le_of_lt right)]

theorem unaryOf_of_fits {op : UnOp} {operand : Expr} (fits : operand.precedence ≤ UnOp.precedence) :
    Expr.unaryOf op operand = .unary op operand := by
  rw [Expr.unaryOf, if_neg (Nat.not_lt_of_le fits)]

/-- The tree is drawn, with or without parentheses around it, from the front of a script. -/
theorem run_before (legal : config.Legal) (drawable : tree.Drawable name) (weights : Weights)
    (coin : Bool) (bare : coin = true → ∀ body, tree ≠ .parens body) (rest : Script) :
    Run Script.source config name weights (rest.before tree (tree.coins coin)) (wrapped coin tree)
      rest := by
  induction tree generalizing weights coin rest with
  | integer value =>
      obtain ⟨dampened, chooses⟩ := chooses_of_legal legal weights .integerConstant
        { rest with integers := value :: rest.integers, coins := coin :: rest.coins }
      exact .integer chooses (Script.integer_eq_ok.mpr rfl) (tosses_coin coin _ rest)
  | double value =>
      obtain ⟨dampened, chooses⟩ := chooses_of_legal legal weights .doubleConstant
        { rest with reals := value :: rest.reals, coins := coin :: rest.coins }
      exact .double chooses (Script.real_eq_ok.mpr rfl) (tosses_coin coin _ rest)
  | var other =>
      obtain rfl : other = name := drawable.named
      obtain ⟨dampened, chooses⟩ := chooses_of_legal legal weights .variableExpr
        { rest with coins := coin :: rest.coins }
      exact .var chooses (tosses_coin coin _ rest)
  | unary op operand ih =>
      obtain ⟨⟨fits, grouped⟩, single, named⟩ := drawable
      let behind : Script := { rest with coins := coin :: rest.coins }
      let drawn := behind.before operand (operand.coins false)
      obtain ⟨dampened, chooses⟩ := chooses_of_legal legal weights .unaryExpr
        { drawn with bits := op.index :: drawn.bits }
      have below := ih ⟨grouped, single, named⟩ dampened false nofun behind
      have run := Run.unary chooses (Source.unOp_eq_ok.mpr (Script.bit_eq_ok.mpr rfl)) below
        (tosses_coin coin (.unaryOf op operand) rest)
      rw [unaryOf_of_fits fits] at run
      rw [Script.before_unary]
      exact run
  | binary op lhs rhs left right =>
      obtain ⟨⟨leftFits, rightFits, leftGrouped, rightGrouped⟩, single, named⟩ := drawable
      -- States from the last draw back to the first: the toss, the right operand, the left operand.
      let behind : Script := { rest with coins := coin :: rest.coins }
      let between := behind.before rhs (rhs.coins false)
      let drawn := between.before lhs (lhs.coins false)
      obtain ⟨dampened, chooses⟩ := chooses_of_legal legal weights .binaryExpr
        { drawn with bits := op.index :: drawn.bits }
      have first := left ⟨leftGrouped, single.1, named.1⟩ dampened false nofun between
      have second := right ⟨rightGrouped, single.2, named.2⟩ dampened false nofun behind
      have run := Run.binary chooses (Source.binOp_eq_ok.mpr (Script.bit_eq_ok.mpr rfl)) first
        second (tosses_coin coin (.binaryOf op lhs rhs) rest)
      rw [binaryOf_of_fits leftFits rightFits] at run
      rw [Script.before_binary]
      exact run
  | parens inner ih =>
      -- The parentheses were a coin for what is inside, and there is no second coin for them.
      have plain : coin = false := by
        cases coin with
        | false => rfl
        | true => exact absurd rfl (bare rfl inner)
      subst plain
      exact ih ⟨drawable.grouped, drawable.single.2, drawable.named⟩ weights true
        (fun _ => drawable.single.1) rest

end Completeness

def UsedUp (script : Script) : Prop :=
  script.kinds = [] ∧ script.bits = [] ∧ script.integers = [] ∧ script.reals = []

theorem generate_eq_ok {σ : Type} {source : Source σ} {config : ValidConfig} {depth : Nat}
    {s after : σ} {tree : Expr} :
    generate source config name depth s = (.ok tree, after) ↔
      ∃ weights, Weights.ofConfig config.val = .ok weights ∧
        draw source config.val name depth weights s = (.ok tree, after) := by
  constructor
  · intro returned
    obtain ⟨weights, same, initial, drawn⟩ := Draw.bind_eq_ok.mp returned
    obtain ⟨found, rfl⟩ := Draw.ofExcept_eq_ok.mp initial
    exact ⟨weights, mapError_eq_ok.mp found, drawn⟩
  · rintro ⟨weights, initial, drawn⟩
    exact Draw.bind_eq_ok.mpr ⟨weights, s,
      Draw.ofExcept_eq_ok.mpr ⟨mapError_eq_ok.mpr initial, rfl⟩, drawn⟩

/-- The trees that scripts can make the generator return, whatever the configuration, and what all
scripts of one tree have in common. -/
theorem generate_image (config : ValidConfig) (name : String) (tree : Expr) :
    ((∃ script depth, (generate Script.source config name depth script).1 = .ok tree) ↔
        tree.Drawable name) ∧
      (tree.Drawable name → ∃ script, ∀ depth, tree.depth ≤ depth →
        generate Script.source config name depth script = (.ok tree, ⟨[], [], [], [], []⟩)) ∧
      (∀ script other depth otherDepth after otherAfter,
        generate Script.source config name depth script = (.ok tree, after) → UsedUp after →
        generate Script.source config name otherDepth other = (.ok tree, otherAfter) →
        UsedUp otherAfter →
        script.kinds = other.kinds ∧ script.bits = other.bits ∧
          script.integers = other.integers ∧ script.reals = other.reals) := by
  have complete : tree.Drawable name → ∃ script, ∀ depth, tree.depth ≤ depth →
      generate Script.source config name depth script = (.ok tree, ⟨[], [], [], [], []⟩) := by
    intro drawable
    obtain ⟨weights, initial, _⟩ := Weights.ofConfig_ok (ValidConfig.legal config)
    have run := run_before (ValidConfig.legal config) drawable weights false nofun
      ⟨[], [], [], [], []⟩
    exact ⟨_, fun depth enough => generate_eq_ok.mpr ⟨weights, initial, draw_of_run run enough⟩⟩
  refine ⟨⟨?_, ?_⟩, complete, ?_⟩
  · rintro ⟨script, depth, returned⟩
    obtain ⟨weights, _, drawn⟩ := generate_eq_ok.mp (Prod.ext returned rfl)
    exact (run_of_draw drawn).drawable
  · intro drawable
    obtain ⟨script, returned⟩ := complete drawable
    exact ⟨script, tree.depth, congrArg Prod.fst (returned _ (Nat.le_refl _))⟩
  · intro script other depth otherDepth after otherAfter first used second otherUsed
    obtain ⟨_, _, drawn⟩ := generate_eq_ok.mp first
    obtain ⟨_, _, otherDrawn⟩ := generate_eq_ok.mp second
    have consumes := (run_of_draw drawn).consumes
    have otherConsumes := (run_of_draw otherDrawn).consumes
    obtain ⟨kinds, bits, integers, reals⟩ := used
    obtain ⟨otherKinds, otherBits, otherIntegers, otherReals⟩ := otherUsed
    refine ⟨?_, ?_, ?_, ?_⟩
    · rw [consumes.kinds, otherConsumes.kinds, kinds, otherKinds]
    · rw [consumes.bits, otherConsumes.bits, bits, otherBits]
    · rw [consumes.integers, otherConsumes.integers, integers, otherIntegers]
    · rw [consumes.reals, otherConsumes.reals, reals, otherReals]

/-- `x + (1 + 2)` from two scripts, one of which leaves the parentheses to the grouping and one of
which has a coin for them. -/
theorem generate_image_sum :
    let config : ValidConfig := ⟨.default, Config.default_valid⟩
    let tree : Expr := .binary .plus (.var "x") (.parens (.binary .plus (.integer 1) (.integer 2)))
    let forced : Script := ⟨[3, 2, 3, 0, 0], [0, 0], [1, 2], [], []⟩
    let tossed : Script := { forced with coins := [false, false, false, true, false] }
    let empty : Script := ⟨[], [], [], [], []⟩
    generate Script.source config "x" 3 forced = (.ok tree, empty) ∧
      generate Script.source config "x" 4 tossed = (.ok tree, empty) ∧ tree.Drawable "x" ∧
      forced.kinds = tossed.kinds ∧ forced.bits = tossed.bits ∧
      forced.integers = tossed.integers ∧ forced.reals = tossed.reals := by
  intro config tree forced tossed empty
  have first : generate Script.source config "x" 3 forced = (.ok tree, empty) :=
    Prod.ext (ok_of_toOption (by decide +kernel)) (by decide +kernel)
  have second : generate Script.source config "x" 4 tossed = (.ok tree, empty) :=
    Prod.ext (ok_of_toOption (by decide +kernel)) (by decide +kernel)
  have image := generate_image config "x" tree
  exact ⟨first, second, image.1.mp ⟨forced, 3, congrArg Prod.fst first⟩,
    image.2.2 forced tossed 3 4 empty empty first ⟨rfl, rfl, rfl, rfl⟩ second ⟨rfl, rfl, rfl, rfl⟩⟩

end Generator
end CExpr
