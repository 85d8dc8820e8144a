import CExpr.Draw.Sources
import CExpr.Proofs.Generator.Image
import CExpr.Proofs.Reader.RoundTrip

/-!
What the generator returns reads back from its own text. The tree is grouped by precedence whatever
the source does; if the source keeps to the ranges of the configuration, then every leaf is written
as one token as well.
-/
namespace CExpr

namespace Expr

variable {test : Expr → Prop}

theorem everyLeaf_guarded {p : Prop} [Decidable p] {e : Expr} (all : e.EveryLeaf test) :
    (if p then parens e else e).EveryLeaf test := by
  split <;> exact all

theorem everyLeaf_binaryOf (op : BinOp) {lhs rhs : Expr} (left : lhs.EveryLeaf test)
    (right : rhs.EveryLeaf test) : (binaryOf op lhs rhs).EveryLeaf test :=
  ⟨everyLeaf_guarded left, everyLeaf_guarded right⟩

theorem everyLeaf_unaryOf (op : UnOp) {operand : Expr} (below : operand.EveryLeaf test) :
    (unaryOf op operand).EveryLeaf test :=
  everyLeaf_guarded (p := UnOp.precedence < operand.precedence) below

end Expr

namespace Generator
open Text

variable {σ : Type} {source : Source σ} {config : Config} {name : String}

/-- A set of states that the draws of a source never leave, and in which every constant that it
draws for the configuration passes a test. -/
structure Answers (source : Source σ) (config : Config) (good : σ → Prop) (test : Expr → Prop) :
    Prop where
  choice {weights : List Double} {s after : σ} {index : Int} :
    good s → source.choice weights s = (.ok index, after) → good after
  bit {mask : Mask} {s after : σ} {index : Int} :
    good s → source.bit mask s = (.ok index, after) → good after
  integer {s after : σ} {value : Int} : good s →
    source.integer config.integerMin config.integerMax s = (.ok value, after) →
      good after ∧ test (.integer value)
  real {s after : σ} {value : Double} : good s →
    source.real config.doubleMin config.doubleMax s = (.ok value, after) →
      good after ∧ test (.double value)
  coin {probability : Double} {s after : σ} {coin : Bool} :
    good s → source.coin probability s = (.ok coin, after) → good after

namespace Answers

variable {good : σ → Prop} {test : Expr → Prop} {s after : σ}

theorem chooses (answers : Answers source config good test) {weights dampened : Weights}
    {kind : ExprKind} (start : good s)
    (chooses : Chooses source config weights s kind dampened after) : good after :=
  answers.choice start (Source.exprKind_eq_ok.mp chooses.drawn)

theorem tosses (answers : Answers source config good test) {bare tree : Expr} (start : good s)
    (tosses : Tosses source config s bare tree after) (all : bare.EveryLeaf test) :
    good after ∧ tree.EveryLeaf test := by
  obtain ⟨coin, tossed, rfl⟩ := tosses
  exact ⟨answers.coin start tossed, Expr.everyLeaf_guarded all⟩

/-- The leaves of a tree are the constants that were drawn for it and the variable. -/
theorem everyLeaf (answers : Answers source config good test) (named : test (.var name))
    {weights : Weights} {tree : Expr} (start : good s)
    (run : Run source config name weights s tree after) : good after ∧ tree.EveryLeaf test := by
  induction run with
  | integer chooses number tosses =>
      obtain ⟨kept, leaf⟩ := answers.integer (answers.chooses start chooses) number
      exact answers.tosses kept tosses leaf
  | double chooses number tosses =>
      obtain ⟨kept, leaf⟩ := answers.real (answers.chooses start chooses) number
      exact answers.tosses kept tosses leaf
  | var chooses tosses => exact answers.tosses (answers.chooses start chooses) tosses named
  | binary chooses picked _ _ tosses left right =>
      -- The right operand starts in the state that the left one has left.
      have begun := answers.bit (answers.chooses start chooses) (Source.binOp_eq_ok.mp picked)
      obtain ⟨between, leftLeaves⟩ := left begun
      obtain ⟨behind, rightLeaves⟩ := right between
      exact answers.tosses behind tosses (Expr.everyLeaf_binaryOf _ leftLeaves rightLeaves)
  | unary chooses picked _ tosses below =>
      have begun := answers.bit (answers.chooses start chooses) (Source.unOp_eq_ok.mp picked)
      obtain ⟨behind, leaves⟩ := below begun
      exact answers.tosses behind tosses (Expr.everyLeaf_unaryOf _ leaves)

theorem imp {weak : Expr → Prop} (answers : Answers source config good test)
    (integers : ∀ value, test (.integer value) → weak (.integer value))
    (reals : ∀ value, test (.double value) → weak (.double value)) :
    Answers source config good weak where
  choice := answers.choice
  bit := answers.bit
  integer start number :=
    ⟨(answers.integer start number).1, integers _ (answers.integer start number).2⟩
  real start number := ⟨(answers.real start number).1, reals _ (answers.real start number).2⟩
  coin := answers.coin

theorem script (config : Config) (test : Expr → Prop) :
    Answers Script.source config
      (fun s => (∀ value ∈ s.integers, test (.integer value)) ∧
        ∀ value ∈ s.reals, test (.double value)) test where
  choice start drawn := by
    cases Script.choice_eq_ok.mp drawn
    exact start
  bit start drawn := by
    cases Script.bit_eq_ok.mp drawn
    exact start
  integer start drawn := by
    cases Script.integer_eq_ok.mp drawn
    exact ⟨⟨fun value member => start.1 value (List.mem_cons_of_mem _ member), start.2⟩,
      start.1 _ List.mem_cons_self⟩
  real start drawn := by
    cases Script.real_eq_ok.mp drawn
    exact ⟨⟨start.1, fun value member => start.2 value (List.mem_cons_of_mem _ member)⟩,
      start.2 _ List.mem_cons_self⟩
  coin start drawn := by
    rcases Script.coin_eq_ok.mp drawn with rfl | ⟨_, _, rfl⟩ <;> exact start

end Answers

theorem isShort_of_le_limit {value : Int} (nonnegative : 0 ≤ value)
    (bounded : value ≤ Config.integerLimit) : (Expr.integer value).IsShort := by
  have limit : Config.integerLimit = 18446744073709551615 := by decide
  have twenty : (digitsOf value.natAbs).length ≤ 20 := by
    apply (Nat.length_toDigits_le_iff (by decide) (by decide)).mpr
    omega
  exact Nat.le_trans twenty (by decide)

/-- A constant within the range that the configuration gives; no double is negative zero. -/
def InRange (config : Config) : Expr → Prop
  | .integer value => config.integerMin ≤ value ∧ value ≤ config.integerMax
  | .double value => value.isFinite = true ∧ config.doubleMin.le value = true ∧
      value.le config.doubleMax = true ∧ value ≠ .zero true
  | _ => True

/-- Generated text reads back. The source may answer as it likes, as long as the constants that it
draws in the states it can get into are within the ranges it is asked for. -/
theorem read_generate (source : Source σ) (config : ValidConfig) (name : String)
    (identifier : isIdentifier name.toList = true) (good : σ → Prop)
    (answers : Answers source config.val good (InRange config.val)) (depth : Nat) (s after : σ)
    (start : good s) (tree : Expr)
    (returned : generate source config name depth s = (.ok tree, after)) :
    Expr.read tree.text.toList (some [name]) = .ok tree := by
  have legal := ValidConfig.legal config
  obtain ⟨weights, _, drawn⟩ := generate_eq_ok.mp returned
  have run := run_of_draw drawn
  have plain : tree.EveryLeaf Expr.IsPlain := by
    refine ((answers.imp (fun value range => ?_) (fun value range => ?_)).everyLeaf identifier start
      run).2
    · exact Int.le_trans legal.integerMin_nonneg range.1
    · -- The range alone would let negative zero through: it is not below zero.
      obtain ⟨finite, lower, _, signless⟩ := range
      exact Double.exists_of_isNonnegative
        (Double.isNonnegative_of_le legal.doubleMin_nonneg lower) finite signless
  have short : tree.EveryLeaf Expr.IsShort := by
    refine ((answers.imp (fun value range => ?_) (fun _ _ => trivial)).everyLeaf trivial start
      run).2
    exact isShort_of_le_limit (Int.le_trans legal.integerMin_nonneg range.1)
      (Int.le_trans range.2 legal.integerMax_le)
  have listed : tree.EveryLeaf (Expr.IsListed (some [name])) := by
    refine ((answers.imp (fun _ _ => trivial) (fun _ _ => trivial)).everyLeaf ?_ start run).2
    rintro names ⟨⟩
    exact List.mem_singleton_self name
  rw [Expr.text, String.toList_ofList]
  exact Expr.read_chars run.drawable.grouped plain short listed

/-- `x * -(7 + 0.0)`, drawn from a script, reads back. -/
theorem read_generate_product :
    let config : ValidConfig := ⟨.default, Config.default_valid⟩
    let script : Script := ⟨[3, 2, 4, 3, 0, 1], [2, 1, 0], [7], [.zero false], []⟩
    let tree : Expr := .binary .mult (.var "x")
      (.unary .neg (.parens (.binary .plus (.integer 7) (.double (.zero false)))))
    (generate Script.source config "x" 4 script).1 = .ok tree ∧
      Expr.read tree.text.toList (some ["x"]) = .ok tree := by
  intro config script tree
  have returned : (generate Script.source config "x" 4 script).1 = .ok tree :=
    ok_of_toOption (by decide +kernel)
  have start : (∀ value ∈ script.integers, InRange config.val (.integer value)) ∧
      ∀ value ∈ script.reals, InRange config.val (.double value) := by
    constructor
    · intro value member
      cases List.mem_singleton.mp member
      exact ⟨by decide, by decide⟩
    · intro value member
      cases List.mem_singleton.mp member
      exact ⟨rfl, by decide +kernel, by decide +kernel, nofun⟩
  exact ⟨returned, read_generate Script.source config "x" (by decide) _
    (.script config.val (InRange config.val)) 4 script _ start tree (Prod.ext returned rfl)⟩

end Generator
end CExpr
