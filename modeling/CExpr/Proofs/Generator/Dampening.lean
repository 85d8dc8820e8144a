import CExpr.Draw.Sources
import CExpr.Proofs.Draw.Outcome
import CExpr.Proofs.Generator.Places
import CExpr.Proofs.Weights.Legal

/-!
Weights are dampened along the path from the root and nowhere else. A run is followed through its
log: a finished one has made the choices for its tree, and one that failed has made choices that
follow the places which its earlier choices opened.
-/
namespace CExpr

namespace Generator

variable {σ : Type} {source : Source σ} {config : Config} {name : String} {s : σ}

def Fills (config : Config) (place : Place) : Except DrawError Expr → List Choice → Prop
  | .ok tree, choices => choices = tree.choices config place
  | .error _, choices => ∀ pending, Follows config (place :: pending) choices

theorem Fills.follows {place : Place} {result : Except DrawError Expr} {choices : List Choice}
    (fills : Fills config place result choices) : Follows config [place] choices := by
  cases result with
  | error e => exact fills []
  | ok tree =>
      have whole := @Follows.tree config place [] [] tree (.done [])
      rw [List.append_nil] at whole
      exact fills ▸ whole

theorem logs_exprKind {weights : Weights} {place : Place} (at_ : weights.IsAt config place) :
    Logs s (source.exprKind weights) (source.logged.exprKind weights) fun result _ events =>
      match result with
      | .ok kind => events.choices = [(config.weightsAt place, .ok kind.index.val)]
      | .error _ => ∃ answer, events.choices = [(config.weightsAt place, answer)] := by
  apply Logs.drawn
  intro result after drawn
  rw [at_.exprList]
  cases result with
  | error e => exact ⟨_, rfl⟩
  | ok kind =>
      have answer := Source.exprKind_eq_ok.mp drawn
      rw [at_.exprList] at answer
      rw [answer]
      rfl

theorem logs_binOp (mask : Mask) :
    Logs s (source.binOp mask) (source.logged.binOp mask) fun _ _ events => events.choices = [] :=
  Logs.drawn fun _ _ _ => rfl

theorem logs_unOp (mask : Mask) :
    Logs s (source.unOp mask) (source.logged.unOp mask) fun _ _ events => events.choices = [] :=
  Logs.drawn fun _ _ _ => rfl

def FillsBelow (config : Config) (place : Place) (kind : ExprKind) :
    Except DrawError Expr → List Choice → Prop
  | .ok bare, choices =>
    (config.weightsAt place, .ok kind.index.val) :: choices = bare.choices config place
  | .error _, choices => ∀ pending,
    Follows config (List.replicate kind.operands (place ++ [kind]) ++ pending) choices

theorem logs_leaf {α : Type} {drawn : Draw σ α} {logged : Draw (σ × DrawLog) α} {leaf : α → Expr}
    {place : Place} {kind : ExprKind}
    (silent : Logs s drawn logged fun _ _ events => events.choices = [])
    (one : ∀ a, (leaf a).choices config place = [(config.weightsAt place, .ok kind.index.val)]) :
    Logs s (do return leaf (← drawn)) (do return leaf (← logged)) fun result _ events =>
      FillsBelow config place kind result events.choices := by
  apply Logs.bind
  refine silent.imp fun result after events quiet => ?_
  cases result with
  | error e =>
      intro pending
      rw [quiet]
      exact .done _
  | ok a =>
      refine Logs.pure ?_
      rw [List.append_nil, quiet]
      exact (one a).symm

section
variable {operand : Draw σ Expr} {logged : Draw (σ × DrawLog) Expr} {place : Place}

theorem logs_binaryOf (below : ∀ s, Logs s operand logged fun result _ events =>
      Fills config (place ++ [.binaryExpr]) result events.choices) :
    Logs s (ofKind source config name operand .binaryExpr)
      (ofKind source.logged config name logged .binaryExpr) fun result _ events =>
        FillsBelow config place .binaryExpr result events.choices := by
  apply Logs.bind
  refine (logs_binOp config.binOps).imp fun result middle picked silent => ?_
  cases result with
  | error e =>
      intro pending
      rw [silent]
      exact .done _
  | ok op =>
      apply Logs.bind
      refine (below middle).imp fun result between first left => ?_
      cases result with
      | error e =>
          intro pending
          rw [DrawLog.choices_append, silent]
          exact left _
      | ok lhs =>
          apply Logs.bind
          refine (below between).imp fun result behind second right => ?_
          cases result with
          | error e =>
              intro pending
              rw [DrawLog.choices_append, DrawLog.choices_append, silent, left]
              exact Follows.tree lhs (right pending)
          | ok rhs =>
              refine Logs.pure ?_
              simp only [FillsBelow, DrawLog.choices_append, silent, Expr.choices_binaryOf,
                List.append_nil]
              rw [left, right]
              rfl

theorem logs_unaryOf (below : ∀ s, Logs s operand logged fun result _ events =>
      Fills config (place ++ [.unaryExpr]) result events.choices) :
    Logs s (ofKind source config name operand .unaryExpr)
      (ofKind source.logged config name logged .unaryExpr) fun result _ events =>
        FillsBelow config place .unaryExpr result events.choices := by
  apply Logs.bind
  refine (logs_unOp config.unOps).imp fun result middle picked silent => ?_
  cases result with
  | error e =>
      intro pending
      rw [silent]
      exact .done _
  | ok op =>
      apply Logs.bind
      refine (below middle).imp fun result behind drawn fills => ?_
      cases result with
      | error e =>
          intro pending
          rw [DrawLog.choices_append, silent]
          exact fills pending
      | ok operand =>
          refine Logs.pure ?_
          simp only [FillsBelow, DrawLog.choices_append, silent, Expr.choices_unaryOf,
            List.append_nil]
          rw [fills]
          rfl

theorem logs_ofKind (kind : ExprKind) (below : ∀ s, Logs s operand logged fun result _ events =>
      Fills config (place ++ [kind]) result events.choices) :
    Logs s (ofKind source config name operand kind) (ofKind source.logged config name logged kind)
      fun result _ events => FillsBelow config place kind result events.choices := by
  cases kind with
  | integerConstant => exact logs_leaf (Logs.answered fun _ _ _ => rfl) fun _ => rfl
  | doubleConstant => exact logs_leaf (Logs.answered fun _ _ _ => rfl) fun _ => rfl
  | variableExpr => exact Logs.pure rfl
  | binaryExpr => exact logs_binaryOf below
  | unaryExpr => exact logs_unaryOf below

end

/-- Whatever the source answers, the choices of a run fill the place that it starts at. -/
theorem logs_draw {depth : Nat} {weights : Weights} {place : Place}
    (at_ : weights.IsAt config place) :
    Logs s (draw source config name depth weights) (draw source.logged config name depth weights)
      fun result _ events => Fills config place result events.choices := by
  induction depth generalizing weights place s with
  | zero => exact Logs.fail fun pending => .done _
  | succ depth ih =>
      rw [draw, draw]
      apply Logs.bind
      refine (logs_exprKind at_).imp fun result chosen choice made => ?_
      cases result with
      | error e =>
          obtain ⟨answer, made⟩ := made
          intro pending
          rw [made]
          exact .last _ _ _
      | ok kind =>
          apply Logs.bind
          apply Logs.ofExcept
          cases scaled : weights.scale (.expr kind) (config.exprKind kind).dampening with
          | error e =>
              intro pending
              rw [List.append_nil, made]
              exact .last _ _ _
          | ok dampened =>
              apply Logs.bind
              refine (logs_ofKind kind fun s => ih (at_.scale scaled)).imp
                fun result behind needed filled => ?_
              cases result with
              | error e =>
                  intro pending
                  rw [List.nil_append, DrawLog.choices_append, made]
                  exact .chosen kind (filled pending)
              | ok bare =>
                  apply Logs.bind
                  refine Logs.answered fun answer after tossed => ?_
                  -- The coin is no choice, so all choices for the tree are made before it.
                  have whole : (choice ++ (needed ++ [.coin config.parenthesize answer])
                      : DrawLog).choices = bare.choices config place := by
                    rw [DrawLog.choices_append, DrawLog.choices_append, made]
                    exact (congrArg _ (List.append_nil _)).trans filled
                  cases answer with
                  | error e =>
                      intro pending
                      have follows := @Follows.tree config place pending [] bare (.done pending)
                      rw [List.append_nil, ← whole] at follows
                      exact follows
                  | ok wrapped => exact Logs.pure (whole.trans (Expr.choices_guarded bare).symm)

theorem logs_generate (source : Source σ) (config : ValidConfig) (name : String) (depth : Nat)
    (s : σ) :
    Logs s (generate source config name depth) (generate source.logged config name depth)
      fun result _ events => Fills config.val [] result events.choices := by
  obtain ⟨weights, initial, same, _⟩ := Weights.ofConfig_ok (ValidConfig.legal config)
  unfold generate
  rw [initial]
  apply Logs.bind
  apply Logs.ofExcept
  exact logs_draw (Weights.isAt_root same)

/-- Requests one after the other, each with its result and its log. The next one starts in the state
that the last one has left, also where that one has failed. -/
def rounds (source : Source σ) (config : ValidConfig) (name : String) (depth : Nat) :
    (count : Nat) → σ → List (Except DrawError Expr × DrawLog)
  | 0, _ => []
  | count + 1, s =>
    ((generate source config name depth s).1,
        (generate source.logged config name depth (s, [])).2.2) ::
      rounds source config name depth count (generate source config name depth s).2

/-- In every round, and whether it ends with a tree or with an error, all choices have the weights
of their places: the initial weights, each dampened along the path from the root by the nodes of its
own kind. The choices of a finished round are those for its tree. Kinds without operands keep their
initial weights throughout. -/
theorem choices_dampened (source : Source σ) (config : ValidConfig) (name : String)
    (depth count : Nat) (s : σ) :
    ∀ round ∈ rounds source config name depth count s,
      Follows config.val [[]] round.2.choices ∧
        (∀ tree, round.1 = .ok tree → round.2.choices = tree.choices config.val []) ∧
        ∀ choice ∈ round.2.choices, ∀ kind : ExprKind, kind.operands = 0 →
          choice.1[kind.index.val]? = some (config.val.exprKind kind).initial := by
  induction count generalizing s with
  | zero => exact List.forall_mem_nil _
  | succ count ih =>
      obtain ⟨events, same, fills⟩ := logs_generate source config name depth s []
      rw [rounds, same]
      refine List.forall_mem_cons.mpr ⟨?_, ih _⟩
      refine ⟨fills.follows, fun tree returned => ?_, fun choice member kind leaf => ?_⟩
      · rw [returned] at fills
        exact fills
      · refine fills.follows.weights_of_leaf ?_ leaf choice member
        -- Nothing is above the root.
        rintro place atRoot above higher
        cases List.mem_singleton.mp atRoot
        cases higher

/-- Two rounds from one script, the second of which runs out of kinds below `+`. -/
theorem choices_dampened_broken_off :
    let config : ValidConfig := ⟨.default, Config.default_valid⟩
    let script : Script := ⟨[3, 2, 4, 2, 3, 2], [0, 1, 0], [], [], []⟩
    ∃ first second, rounds Script.source config "x" 3 2 script = [first, second] ∧
      first.1 = .ok (.binary .plus (.var "x") (.unary .neg (.var "x"))) ∧
      second.1.toOption = none ∧ second.2.choices.length = 3 ∧
      Follows config.val [[]] first.2.choices ∧ Follows config.val [[]] second.2.choices := by
  intro config script
  have dampened := choices_dampened Script.source config "x" 3 2 script
  refine ⟨_, _, rfl, ok_of_toOption (by decide +kernel), by decide +kernel, by decide +kernel,
    (dampened _ ?_).1, (dampened _ ?_).1⟩
  · exact List.mem_cons_self
  · exact List.mem_cons_of_mem _ List.mem_cons_self

end Generator
end CExpr
