import CExpr.Proofs.Generator.RoundTrip
import CExpr.Proofs.Generator.Trace
import CExpr.Proofs.Reader.Regrouping

/-!
Where no coin puts parentheses, the generator puts none in vain. If every toss of a run ends with
tails, all parentheses of the tree stand around an operand that is too loose for its place, and
without one pair of them the text is read as a tree that groups otherwise. What the coins and the
constants were is told by the log of the run.
-/
namespace CExpr
open Text

/-- Of a toss it is asked that it ends with tails, and of a constant that it lies in the range of the
configuration. -/
def DrawEvent.Complies (config : Config) : DrawEvent → Prop
  | .coin _ (.ok heads) => heads = false
  | .integer _ _ (.ok value) => Generator.InRange config (.integer value)
  | .real _ _ (.ok value) => Generator.InRange config (.double value)
  | _ => True

namespace Generator

variable {σ : Type} {source : Source σ} {config : Config} {name : String}
  {weights dampened : Weights} {s middle after : σ × DrawLog}

/-- What lies between two states of a logged source: something was added to the log, and a condition
is met if all of it complies. -/
def Grants (config : Config) (s after : σ × DrawLog) (condition : Prop) : Prop :=
  ∃ events, after.2 = s.2 ++ events ∧
    ((∀ event ∈ events, event.Complies config) → condition)

namespace Grants

variable {first second : Prop}

theorem trans (before : Grants config s middle first) (later : Grants config middle after second) :
    Grants config s after (first ∧ second) := by
  obtain ⟨events, grown, holds⟩ := before
  obtain ⟨others, grownOn, holdsOn⟩ := later
  refine ⟨events ++ others, by rw [grownOn, grown, List.append_assoc], fun comply => ?_⟩
  obtain ⟨inEvents, inOthers⟩ := List.forall_mem_append.mp comply
  exact ⟨holds inEvents, holdsOn inOthers⟩

theorem imp (grants : Grants config s after first) (weakens : first → second) :
    Grants config s after second := by
  obtain ⟨events, grown, holds⟩ := grants
  exact ⟨events, grown, fun comply => weakens (holds comply)⟩

theorem answered {α : Type} {event : Except DrawError α → DrawEvent} {draw : Draw σ α} {a : α}
    (drawn : Source.answered event draw s = (.ok a, after)) :
    Grants config s after ((event (.ok a)).Complies config) :=
  ⟨_, (Source.answered_eq_ok.mp drawn).2, fun comply => comply _ (List.mem_singleton_self _)⟩

end Grants

theorem Chooses.grants {kind : ExprKind}
    (chooses : Chooses source.logged config weights s kind dampened after) :
    Grants config s after True :=
  (Grants.answered (Source.exprKind_eq_ok.mp chooses.drawn)).imp fun _ => trivial

theorem Tosses.grants {bare tree : Expr}
    (tosses : Tosses source.logged config s bare tree after) :
    Grants config s after (tree = bare) := by
  obtain ⟨coin, tossed, rfl⟩ := tosses
  exact (Grants.answered tossed).imp fun tails => by rw [show coin = false from tails]; rfl

/-- What is generated without heads: parentheses are needed wherever the tree is put, and the
constants are in their ranges. -/
def Sparing (config : Config) (tree : Expr) : Prop :=
  (∀ bound, tree.ParensNeeded bound) ∧ tree.EveryLeaf (InRange config)

theorem Sparing.binaryOf (op : BinOp) {lhs rhs : Expr} (left : Sparing config lhs)
    (right : Sparing config rhs) : Sparing config (.binaryOf op lhs rhs) :=
  ⟨Expr.parensNeeded_binaryOf op left.1 right.1, Expr.everyLeaf_binaryOf op left.2 right.2⟩

theorem Sparing.unaryOf (op : UnOp) {operand : Expr} (below : Sparing config operand) :
    Sparing config (.unaryOf op operand) :=
  ⟨Expr.parensNeeded_unaryOf op below.1, Expr.everyLeaf_unaryOf op below.2⟩

theorem Run.grants {tree : Expr} (run : Run source.logged config name weights s tree after) :
    Grants config s after (Sparing config tree) := by
  induction run with
  | integer chooses number tosses =>
      refine ((chooses.grants.trans (.answered number)).trans tosses.grants).imp ?_
      rintro ⟨⟨_, range⟩, rfl⟩
      exact ⟨fun _ => trivial, range⟩
  | double chooses number tosses =>
      refine ((chooses.grants.trans (.answered number)).trans tosses.grants).imp ?_
      rintro ⟨⟨_, range⟩, rfl⟩
      exact ⟨fun _ => trivial, range⟩
  | var chooses tosses =>
      refine (chooses.grants.trans tosses.grants).imp ?_
      rintro ⟨_, rfl⟩
      exact ⟨fun _ => trivial, trivial⟩
  | binary chooses picked _ _ tosses left right =>
      have node := chooses.grants.trans (.answered (Source.binOp_eq_ok.mp picked))
      refine ((node.trans (left.trans right)).trans tosses.grants).imp ?_
      rintro ⟨⟨_, first, second⟩, rfl⟩
      exact .binaryOf _ first second
  | unary chooses picked _ tosses below =>
      have node := chooses.grants.trans (.answered (Source.unOp_eq_ok.mp picked))
      refine ((node.trans below).trans tosses.grants).imp ?_
      rintro ⟨⟨_, operand⟩, rfl⟩
      exact .unaryOf _ operand

theorem fits_of_inRange {leaf : Expr} {allowed : Option (List String)} (legal : config.Legal)
    (identifier : isIdentifier name.toList = true) (listed : ∀ names ∈ allowed, name ∈ names)
    (range : InRange config leaf) (named : leaf.IsNamed name) :
    leaf.IsPlain ∧ leaf.IsShort ∧ leaf.IsListed allowed := by
  cases leaf with
  | integer value =>
      have nonnegative := Int.le_trans legal.integerMin_nonneg range.1
      have bounded := Int.le_trans range.2 legal.integerMax_le
      exact ⟨nonnegative, isShort_of_le_limit nonnegative bounded, trivial⟩
  | double value =>
      obtain ⟨finite, lower, _, signless⟩ := range
      have nonnegative := Double.isNonnegative_of_le legal.doubleMin_nonneg lower
      exact ⟨Double.exists_of_isNonnegative nonnegative finite signless, trivial, trivial⟩
  | var other =>
      cases named
      exact ⟨identifier, trivial, listed⟩
  | unary op operand | binary op lhs rhs | parens inner => exact ⟨trivial, trivial, trivial⟩

/-- If all coins of a request show tails and its constants are in their ranges, every pair of
parentheses in the tree is around a binary operation, and the text without this one pair is read as a
tree that differs even when all other parentheses are left out of account. -/
theorem generate_parens_needed (source : Source σ) (config : ValidConfig) (name : String)
    (identifier : isIdentifier name.toList = true) (depth : Nat) (s after : σ) (tree : Expr)
    (returned : generate source config name depth s = (.ok tree, after))
    (comply : ∀ event ∈ (generate source.logged config name depth (s, [])).2.2,
      event.Complies config.val)
    (context : Expr.Context) (inner : Expr) (parenthesised : tree = context.fill (.parens inner)) :
    (∃ op lhs rhs, inner = .binary op lhs rhs) ∧
      ∀ allowed : Option (List String), (∀ names ∈ allowed, name ∈ names) →
        ∃ read, Expr.read (context.fill inner).text.toList allowed = .ok read ∧
          read.withoutParens.same (context.fill inner).withoutParens = false := by
  subst parenthesised
  obtain ⟨events, watched, _⟩ := logs_generate source config name depth s []
  rw [returned] at watched
  rw [watched] at comply
  obtain ⟨weights, _, drawn⟩ := generate_eq_ok.mp watched
  have run := run_of_draw drawn
  obtain ⟨others, grown, holds⟩ := run.grants
  cases List.append_cancel_left grown
  obtain ⟨needed, ranges⟩ := holds comply
  refine ⟨Expr.Context.binary_of_parensNeeded (Nat.le_refl _) (needed UnOp.precedence),
    fun allowed listed => ?_⟩
  have leaves := (ranges.and run.drawable.named).imp fun leaf _ both =>
    fits_of_inRange (ValidConfig.legal config) identifier listed both.1 both.2
  have bare := Expr.Context.everyLeaf_fill (a := .parens inner) (b := inner) id leaves
  refine Expr.exists_read_regrouped (bare.imp fun _ _ fits => fits.1)
    (bare.imp fun _ _ fits => fits.2.1) (bare.imp fun _ _ fits => fits.2.2) fun correct => ?_
  exact Expr.Context.not_precedenceCorrect_of_parensNeeded (needed BinOp.loosest)
    ⟨Expr.precedence_le_loosest _, correct⟩

/-- `x * (x - (1 + 2))` from a script, without the inner parentheses. -/
theorem generate_parens_needed_nested :
    let config : ValidConfig := ⟨.default, Config.default_valid⟩
    let script : Script := ⟨[3, 2, 3, 2, 3, 0, 0], [2, 1, 0], [1, 2], [], []⟩
    let inner : Expr := .binary .plus (.integer 1) (.integer 2)
    let context : Expr.Context := .right .mult (.var "x") (.parens (.right .minus (.var "x") .hole))
    (generate Script.source config "x" 5 script).1 = .ok (context.fill (.parens inner)) ∧
      (∀ event ∈ (generate Script.source.logged config "x" 5 (script, [])).2.2,
        event.Complies config.val) ∧
      ∃ read, Expr.read (context.fill inner).text.toList (some ["x"]) = .ok read ∧
        read.withoutParens.same (context.fill inner).withoutParens = false := by
  intro config script inner context
  have drawn : (generate Script.source config "x" 5 script).1 = .ok (context.fill (.parens inner)) :=
    ok_of_toOption (by decide +kernel)
  have returned : generate Script.source config "x" 5 script = (.ok (context.fill (.parens inner)), _) :=
    Prod.ext drawn rfl
  have comply : ∀ event ∈ (generate Script.source.logged config "x" 5 (script, [])).2.2,
      event.Complies config.val := by
    rw [(generate_spends returned []).1]
    have one : InRange config.val (.integer 1) := ⟨by decide, by decide⟩
    have two : InRange config.val (.integer 2) := ⟨by decide, by decide⟩
    simp [context, inner, script, Expr.Context.fill, Expr.trace, Expr.nodeTrace,
      DrawEvent.Complies, one, two]
  have listed : ∀ names ∈ some ["x"], "x" ∈ names := by decide
  exact ⟨drawn, comply, (generate_parens_needed Script.source config "x" (by decide) 5 script _ _
    returned comply context inner rfl).2 _ listed⟩

end Generator
end CExpr
