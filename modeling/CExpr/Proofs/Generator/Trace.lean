import CExpr.Proofs.Expr.Nodes
import CExpr.Proofs.Generator.Dampening
import CExpr.Proofs.Generator.Image

/-!
The draws behind a tree, one by one. A finished tree tells every draw that was made for it and the
order in which they were made: a node's kind, its operator or its constant, all draws for its operands
from left to right, and its coin. So no draw is lost, made twice or made for another tree, and a
script is used up tree by tree.
-/
namespace CExpr

namespace Expr

def tosses : Expr → Nat
  | unary _ operand => operand.tosses + 1
  | binary _ lhs rhs => lhs.tosses + rhs.tosses + 1
  | parens inner => inner.tosses
  | _ => 1

def nodeTrace (config : Config) (place : Place) (kind : ExprKind) (own below : DrawLog)
    (coin : Bool) : DrawLog :=
  .choice (config.weightsAt place) (.ok kind.index.val) ::
    (own ++ below ++ [.coin config.parenthesize (.ok coin)])

/-- The draws for a tree at a place with their answers. The coins are the next ones of a queue, in
which those of the operands stand before that of the node; when none are left it is tails. -/
def trace (config : Config) : Expr → Place → List Bool → DrawLog
  | integer value, place, coins =>
    nodeTrace config place .integerConstant
      [.integer config.integerMin config.integerMax (.ok value)] [] (coins.headD false)
  | double value, place, coins =>
    nodeTrace config place .doubleConstant
      [.real config.doubleMin config.doubleMax (.ok value)] [] (coins.headD false)
  | var _, place, coins => nodeTrace config place .variableExpr [] [] (coins.headD false)
  | unary op operand, place, coins =>
    nodeTrace config place .unaryExpr [.bit config.unOps (.ok op.index)]
      (operand.trace config (place ++ [.unaryExpr]) coins)
      ((coins.drop operand.tosses).headD false)
  | binary op lhs rhs, place, coins =>
    nodeTrace config place .binaryExpr [.bit config.binOps (.ok op.index)]
      (lhs.trace config (place ++ [.binaryExpr]) coins ++
        rhs.trace config (place ++ [.binaryExpr]) (coins.drop lhs.tosses))
      ((coins.drop (lhs.tosses + rhs.tosses)).headD false)
  | parens inner, place, coins => inner.trace config place coins

def traces (config : Config) : List Expr → List Bool → DrawLog
  | [], _ => []
  | tree :: rest, coins => tree.trace config [] coins ++ traces config rest (coins.drop tree.tosses)

variable {config : Config} {place : Place} {coins : List Bool}

theorem tosses_guarded {p : Prop} [Decidable p] (e : Expr) :
    (if p then parens e else e).tosses = e.tosses := by
  split <;> rfl

theorem trace_guarded {p : Prop} [Decidable p] (e : Expr) :
    (if p then parens e else e).trace config place coins = e.trace config place coins := by
  split <;> rfl

theorem tosses_binaryOf (op : BinOp) (lhs rhs : Expr) :
    (binaryOf op lhs rhs).tosses = (binary op lhs rhs).tosses := by
  simp only [binaryOf, tosses, tosses_guarded]

theorem trace_binaryOf (op : BinOp) (lhs rhs : Expr) :
    (binaryOf op lhs rhs).trace config place coins = (binary op lhs rhs).trace config place coins := by
  simp only [binaryOf, trace, trace_guarded, tosses_guarded]

theorem tosses_unaryOf (op : UnOp) (operand : Expr) :
    (unaryOf op operand).tosses = (unary op operand).tosses := by
  simp only [unaryOf, tosses, tosses_guarded]

theorem trace_unaryOf (op : UnOp) (operand : Expr) :
    (unaryOf op operand).trace config place coins = (unary op operand).trace config place coins := by
  simp only [unaryOf, trace, trace_guarded, tosses_guarded]

/-! The same by the list of the nodes, each of which comes before its operands. -/
section Visit

theorem flatMap_subexpressions {α : Type} {contributes : Expr → List α}
    (silent : ∀ inner, contributes (parens inner) = []) (e : Expr) :
    e.subexpressions.flatMap contributes = e.gather contributes := by
  rw [subexpressions_eq]
  induction e with
  | integer value | double value | var name => simp [preorder, gather]
  | unary op operand ih => rw [preorder, List.flatMap_cons, ih, gather]
  | binary op lhs rhs left right =>
      rw [preorder, List.flatMap_cons, List.flatMap_append, left, right, gather, List.append_assoc]
  | parens inner ih => rw [preorder, List.flatMap_cons, silent, ih, gather, List.nil_append]

theorem countP_subexpressions (e : Expr) :
    e.subexpressions.countP (!·.isParens) = e.tosses := by
  rw [subexpressions_eq]
  induction e with
  | integer value | double value | var name => rfl
  | unary op operand ih => rw [preorder, List.countP_cons_of_pos rfl, ih, tosses]
  | binary op lhs rhs left right =>
      rw [preorder, List.countP_cons_of_pos rfl, List.countP_append, left, right, tosses]
  | parens inner ih => rw [preorder, List.countP_cons_of_neg Bool.false_ne_true, ih, tosses]

end Visit
end Expr

theorem Source.answered_eq_ok {σ α : Type} {event : Except DrawError α → DrawEvent}
    {draw : Draw σ α} {s after : σ × DrawLog} {a : α} :
    answered event draw s = (.ok a, after) ↔
      draw s.1 = (.ok a, after.1) ∧ after.2 = s.2 ++ [event (.ok a)] := by
  rcases s with ⟨state, log⟩
  rcases after with ⟨rest, added⟩
  change ((draw state).1, (draw state).2, log ++ [event (draw state).1]) = _ ↔ _
  rcases draw state with ⟨result, behind⟩
  constructor
  · intro returned
    cases returned
    exact ⟨rfl, rfl⟩
  · rintro ⟨same, grown⟩
    cases same
    cases grown
    rfl

namespace Script

/-- What lies between two states of a logged script: events that were added to the log, and coins that
were taken as far as there were any. -/
def Spends (count : Nat) (events : DrawLog) (s after : Script × DrawLog) : Prop :=
  after.2 = s.2 ++ events ∧ after.1.coins = s.1.coins.drop count

variable {s middle after : Script × DrawLog}

theorem Spends.trans {count more : Nat} {events others : DrawLog}
    (first : Spends count events s middle) (second : Spends more others middle after) :
    Spends (count + more) (events ++ others) s after := by
  constructor
  · rw [second.1, first.1, List.append_assoc]
  · rw [second.2, first.2, List.drop_drop]

theorem spends_answered {α : Type} {event : Except DrawError α → DrawEvent} {draw : Draw Script α}
    {a : α} (kept : draw s.1 = (.ok a, after.1) → s.1.coins = after.1.coins)
    (drawn : Source.answered event draw s = (.ok a, after)) :
    Spends 0 [event (.ok a)] s after := by
  obtain ⟨popped, grown⟩ := Source.answered_eq_ok.mp drawn
  exact ⟨grown, (kept popped).symm⟩

theorem spends_choice {weights : List Double} {index : Int}
    (drawn : source.logged.choice weights s = (.ok index, after)) :
    Spends 0 [.choice weights (.ok index)] s after :=
  spends_answered (fun popped => by rw [(@choice_eq_ok _ _ weights _).mp popped]) drawn

theorem spends_bit {mask : Mask} {index : Int}
    (drawn : source.logged.bit mask s = (.ok index, after)) :
    Spends 0 [.bit mask (.ok index)] s after :=
  spends_answered (fun popped => by rw [(@bit_eq_ok _ _ mask _).mp popped]) drawn

theorem spends_integer {lo hi value : Int}
    (drawn : source.logged.integer lo hi s = (.ok value, after)) :
    Spends 0 [.integer lo hi (.ok value)] s after :=
  spends_answered (fun popped => by rw [(@integer_eq_ok _ _ lo hi _).mp popped]) drawn

theorem spends_real {lo hi value : Double}
    (drawn : source.logged.real lo hi s = (.ok value, after)) :
    Spends 0 [.real lo hi (.ok value)] s after :=
  spends_answered (fun popped => by rw [(@real_eq_ok _ _ lo hi _).mp popped]) drawn

theorem spends_coin {probability : Double} {coin : Bool}
    (tossed : source.logged.coin probability s = (.ok coin, after)) :
    Spends 1 [.coin probability (.ok (s.1.coins.headD false))] s after := by
  obtain ⟨popped, grown⟩ := Source.answered_eq_ok.mp tossed
  rcases (@coin_eq_ok _ _ probability _).mp popped with front | ⟨rfl, empty, same⟩
  · constructor
    · rw [grown, front]
      rfl
    · rw [front]
      rfl
  · constructor
    · rw [grown, empty]
      rfl
    · rw [← same, empty]
      rfl

end Script

namespace Generator
open Script

variable {config : Config} {name : String} {weights dampened : Weights} {place : Place}
  {s middle behind after : Script × DrawLog}

theorem Chooses.spends {kind : ExprKind} (at_ : weights.IsAt config place)
    (chooses : Chooses Script.source.logged config weights s kind dampened after) :
    Spends 0 [.choice (config.weightsAt place) (.ok kind.index.val)] s after := by
  rw [← at_.exprList]
  exact spends_choice (Source.exprKind_eq_ok.mp chooses.drawn)

/-- The last draw for a node is its coin, for which those of its operands have been taken before. -/
theorem Tosses.spends {bare tree : Expr} {kind : ExprKind} {own below : DrawLog} {count : Nat}
    (tosses : Tosses Script.source.logged config behind bare tree after)
    (started : Spends count
      (.choice (config.weightsAt place) (.ok kind.index.val) :: (own ++ below)) s behind)
    (counted : bare.tosses = count + 1)
    (told : bare.trace config place s.1.coins =
      Expr.nodeTrace config place kind own below ((s.1.coins.drop count).headD false)) :
    Spends tree.tosses (tree.trace config place s.1.coins) s after := by
  obtain ⟨coin, tossed, rfl⟩ := tosses
  have ended := started.trans (spends_coin tossed)
  rw [started.2] at ended
  rw [wrapped, Expr.tosses_guarded, Expr.trace_guarded, counted, told]
  exact ended

theorem Run.spends {tree : Expr} (at_ : weights.IsAt config place)
    (run : Run Script.source.logged config name weights s tree after) :
    Spends tree.tosses (tree.trace config place s.1.coins) s after := by
  -- What lies between two states is pieced together from the draws for one node, among which those of
  -- the runs for its operands stand as a whole.
  induction run generalizing place with
  | integer chooses number tosses =>
      exact tosses.spends ((chooses.spends at_).trans (spends_integer number)) rfl rfl
  | double chooses number tosses =>
      exact tosses.spends ((chooses.spends at_).trans (spends_real number)) rfl rfl
  | var chooses tosses => exact tosses.spends (chooses.spends at_) rfl rfl
  | @binary _ _ s _ drawn between _ _ op lhs rhs _ chooses picked _ _ tosses left right =>
      have node := (chooses.spends at_).trans (spends_bit (Source.binOp_eq_ok.mp picked))
      have first := left (at_.scale chooses.scaled)
      have second := right (at_.scale chooses.scaled)
      have started := node.trans (first.trans second)
      -- The coins of the right operand are those that the left one has left.
      have behindNode : drawn.1.coins = s.1.coins := node.2
      have behindLeft : between.1.coins = s.1.coins.drop lhs.tosses := by
        rw [first.2, behindNode]
      rw [behindNode, behindLeft, Nat.zero_add] at started
      exact tosses.spends started (Expr.tosses_binaryOf op lhs rhs) (Expr.trace_binaryOf op lhs rhs)
  | @unary _ _ s _ drawn _ _ op operand _ chooses picked _ tosses below =>
      have node := (chooses.spends at_).trans (spends_bit (Source.unOp_eq_ok.mp picked))
      have started := node.trans (below (at_.scale chooses.scaled))
      have behindNode : drawn.1.coins = s.1.coins := node.2
      rw [behindNode, Nat.zero_add] at started
      exact tosses.spends started (Expr.tosses_unaryOf op operand) (Expr.trace_unaryOf op operand)

/-- A request that ends with a tree has made the draws of its trace, and taken from every queue what
the tree tells. -/
theorem generate_spends {config : ValidConfig} {depth : Nat} {script rest : Script} {tree : Expr}
    (returned : generate Script.source config name depth script = (.ok tree, rest)) (log : DrawLog) :
    generate Script.source.logged config name depth (script, log) =
        (.ok tree, rest, log ++ tree.trace config.val [] script.coins) ∧
      Consumes tree script rest ∧ rest.coins = script.coins.drop tree.tosses := by
  obtain ⟨events, same, _⟩ := logs_generate Script.source config name depth script log
  rw [returned] at same
  obtain ⟨weights, initial, drawn⟩ := generate_eq_ok.mp same
  obtain ⟨found, legal, exprs, _⟩ := Weights.ofConfig_ok (ValidConfig.legal config)
  cases initial.symm.trans legal
  obtain ⟨grown, taken⟩ := (run_of_draw drawn).spends (Weights.isAt_root exprs)
  cases List.append_cancel_left grown
  obtain ⟨_, _, plain⟩ := generate_eq_ok.mp returned
  exact ⟨same, (run_of_draw plain).consumes, taken⟩

def generateAll {σ : Type} (source : Source σ) (config : ValidConfig) (name : String) (depth : Nat) :
    (count : Nat) → Draw σ (List Expr)
  | 0 => return []
  | count + 1 => do
    let tree ← generate source config name depth
    return tree :: (← generateAll source config name depth count)

theorem generateAll_succ_eq_ok {σ : Type} {source : Source σ} {config : ValidConfig}
    {depth count : Nat} {s last : σ} {trees : List Expr} :
    generateAll source config name depth (count + 1) s = (.ok trees, last) ↔
      ∃ tree next others, generate source config name depth s = (.ok tree, next) ∧
        generateAll source config name depth count next = (.ok others, last) ∧
        trees = tree :: others := by
  constructor
  · intro returned
    obtain ⟨tree, next, first, returned⟩ := Draw.bind_eq_ok.mp returned
    obtain ⟨others, behind, later, returned⟩ := Draw.bind_eq_ok.mp returned
    obtain ⟨rfl, rfl⟩ := Draw.pure_eq_ok.mp returned
    exact ⟨tree, next, others, first, later, rfl⟩
  · rintro ⟨tree, next, others, first, later, rfl⟩
    exact Draw.bind_eq_ok.mpr ⟨tree, next, first,
      Draw.bind_eq_ok.mpr ⟨others, last, later, Draw.pure_eq_ok.mpr ⟨rfl, rfl⟩⟩⟩

theorem generateAll_spends {config : ValidConfig} {depth count : Nat} {script rest : Script}
    {trees : List Expr}
    (returned : generateAll Script.source config name depth count script = (.ok trees, rest))
    (log : DrawLog) :
    generateAll Script.source.logged config name depth count (script, log) =
        (.ok trees, rest, log ++ Expr.traces config.val trees script.coins) ∧
      script.kinds = trees.flatMap (Expr.gather Expr.drawnKind) ++ rest.kinds ∧
      script.bits = trees.flatMap (Expr.gather Expr.drawnBit) ++ rest.bits ∧
      script.integers = trees.flatMap (Expr.gather Expr.drawnInteger) ++ rest.integers ∧
      script.reals = trees.flatMap (Expr.gather Expr.drawnReal) ++ rest.reals ∧
      rest.coins = script.coins.drop (trees.map Expr.tosses).sum := by
  induction count generalizing script trees log with
  | zero =>
      obtain ⟨rfl, rfl⟩ := Draw.pure_eq_ok.mp returned
      refine ⟨?_, rfl, rfl, rfl, rfl, rfl⟩
      rw [Expr.traces, List.append_nil]
      rfl
  | succ count ih =>
      obtain ⟨tree, next, others, first, later, rfl⟩ := generateAll_succ_eq_ok.mp returned
      obtain ⟨traced, consumes, taken⟩ := generate_spends first log
      obtain ⟨tracedLater, kinds, bits, integers, reals, coins⟩ :=
        ih later (log ++ tree.trace config.val [] script.coins)
      rw [taken, List.append_assoc] at tracedLater
      refine ⟨generateAll_succ_eq_ok.mpr ⟨tree, _, others, traced, tracedLater, rfl⟩, ?_⟩
      simp only [List.flatMap_cons, List.append_assoc, List.map_cons, List.sum_cons]
      rw [← kinds, ← bits, ← integers, ← reals, coins, taken, List.drop_drop]
      exact ⟨consumes.kinds, consumes.bits, consumes.integers, consumes.reals, rfl⟩

/-- Requests that all end with trees make the draws of the trees' traces, one trace after the other, and
no others. From the queues they take the kinds of all nodes but parentheses, the operators and the
constants, tree by tree and each node before its operands, and one coin for each of the nodes as long
as there are any. -/
theorem generateAll_trace (config : ValidConfig) (name : String) (depth count : Nat)
    (script rest : Script) (trees : List Expr)
    (returned : generateAll Script.source config name depth count script = (.ok trees, rest)) :
    generateAll Script.source.logged config name depth count (script, []) =
        (.ok trees, rest, Expr.traces config.val trees script.coins) ∧
      script.kinds = trees.flatMap (·.subexpressions.flatMap Expr.drawnKind) ++ rest.kinds ∧
      script.bits = trees.flatMap (·.subexpressions.flatMap Expr.drawnBit) ++ rest.bits ∧
      script.integers = trees.flatMap (·.subexpressions.flatMap Expr.drawnInteger) ++ rest.integers ∧
      script.reals = trees.flatMap (·.subexpressions.flatMap Expr.drawnReal) ++ rest.reals ∧
      rest.coins =
        script.coins.drop (trees.map (·.subexpressions.countP (!·.isParens))).sum := by
  simp only [@Expr.flatMap_subexpressions _ Expr.drawnKind fun _ => rfl,
    @Expr.flatMap_subexpressions _ Expr.drawnBit fun _ => rfl,
    @Expr.flatMap_subexpressions _ Expr.drawnInteger fun _ => rfl,
    @Expr.flatMap_subexpressions _ Expr.drawnReal fun _ => rfl, Expr.countP_subexpressions]
  exact generateAll_spends returned []

/-- `x * -(7)` and `2.0 + x` from one script. The coins are used up at the `2.0`. -/
theorem generateAll_trace_two :
    let config : ValidConfig := ⟨.default, Config.default_valid⟩
    let script : Script := ⟨[3, 2, 4, 0, 3, 1, 2, 1], [2, 1, 0], [7], [.ofInt 2],
      [false, true, false, false, false]⟩
    let rest : Script := ⟨[1], [], [], [], []⟩
    let trees : List Expr := [.binary .mult (.var "x") (.unary .neg (.parens (.integer 7))),
      .binary .plus (.double (.ofInt 2)) (.var "x")]
    generateAll Script.source config "x" 3 2 script = (.ok trees, rest) ∧
      generateAll Script.source.logged config "x" 3 2 (script, []) =
        (.ok trees, rest, Expr.traces config.val trees script.coins) ∧
      script.kinds = trees.flatMap (·.subexpressions.flatMap Expr.drawnKind) ++ rest.kinds ∧
      script.bits = trees.flatMap (·.subexpressions.flatMap Expr.drawnBit) ++ rest.bits ∧
      script.integers = trees.flatMap (·.subexpressions.flatMap Expr.drawnInteger) ++ rest.integers ∧
      script.reals = trees.flatMap (·.subexpressions.flatMap Expr.drawnReal) ++ rest.reals ∧
      rest.coins =
        script.coins.drop (trees.map (·.subexpressions.countP (!·.isParens))).sum := by
  intro config script rest trees
  have returned : generateAll Script.source config "x" 3 2 script = (.ok trees, rest) :=
    Prod.ext (ok_of_toOption (by decide +kernel)) (by decide +kernel)
  exact ⟨returned, generateAll_trace config "x" 3 2 script rest trees returned⟩

end Generator
end CExpr
