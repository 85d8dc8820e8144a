import CExpr.Proofs.CommandLine.Stream

/-!
What breaks a run off. Before its first request that is a seed that was given nothing, or a timeout that
cannot be set; from then on a request that ends without a tree, or a tree that cannot be logged or
printed.
-/
namespace CExpr

variable {σ : Type} {arguments : Arguments} {failure : RunFailure}

inductive Obstacle (arguments : Arguments) (iterations : List Iteration) : RunFailure → Prop
  | draw {e : DrawError} (ended : .failed e ∈ iterations) : Obstacle arguments iterations (.draw e)
  | log {e : Expr} {failure : RunFailure} (made : .generated e ∈ iterations)
    (unlogged : e.records arguments = .error failure) : Obstacle arguments iterations failure
  | line {e : Expr} {failure : RunFailure} (made : .generated e ∈ iterations)
    (unprinted : e.line arguments = .error failure) : Obstacle arguments iterations failure

namespace Obstacle

variable {iterations : List Iteration}

theorem cons (first : Iteration) (obstacle : Obstacle arguments iterations failure) :
    Obstacle arguments (first :: iterations) failure := by
  cases obstacle with
  | draw ended => exact .draw (List.mem_cons_of_mem _ ended)
  | log made unlogged => exact .log (List.mem_cons_of_mem _ made) unlogged
  | line made unprinted => exact .line (List.mem_cons_of_mem _ made) unprinted

theorem ofIterations {timeout : Int} {index : Nat}
    (stopped : (Report.Progress.ofIterations arguments timeout index iterations).failure =
      some failure) : Obstacle arguments iterations failure := by
  induction iterations generalizing index with
  | nil => cases stopped
  | cons iteration iterations ih =>
      cases iteration with
      | skipped => exact (ih stopped).cons _
      | failed e =>
          cases stopped
          exact .draw List.mem_cons_self
      | generated e =>
          rw [Report.Progress.ofIterations, Report.Progress.ofTree] at stopped
          cases logged : e.records arguments with
          | error other =>
              rw [logged] at stopped
              cases stopped
              exact .log List.mem_cons_self logged
          | ok records =>
              cases printed : e.line arguments with
              | error other =>
                  rw [logged, printed] at stopped
                  cases stopped
                  exact .line List.mem_cons_self printed
              | ok line =>
                  rw [logged, printed] at stopped
                  exact (ih stopped).cons _

end Obstacle

variable {source : Source σ} {config : ValidConfig} {grants : Nat → Option Nat} {seed : Option Int}
  {state : σ} {warnings : List LogRecord}

theorem status_ofProgress {summary : List LogRecord} {progress : Report.Progress}
    (ended : (Report.ofProgress warnings summary progress).status = .error failure) :
    progress.failure = some failure := by
  unfold Report.ofProgress at ended
  cases stopped : progress.failure with
  | none =>
      rw [stopped] at ended
      cases ended
  | some other =>
      rw [stopped] at ended
      cases ended
      rfl

theorem failure_of_runRequests
    (ended : (runRequests source state arguments config seed grants warnings).status =
      .error failure) :
    arguments.limit = .error failure ∨
      Obstacle arguments (requests source config (arguments.name.getD Arguments.defaultName)
        arguments grants state) failure := by
  unfold runRequests at ended
  unfold requests
  generalize (arguments.count.getD 0).toNat = count at ended ⊢
  cases count with
  | zero => cases ended
  | succ count =>
      cases limit : arguments.limit with
      | error other =>
          rw [limit] at ended
          cases ended
          exact .inl rfl
      | ok timeout =>
          rw [limit] at ended
          rw [Arguments.timeout_of_limit limit]
          exact .inr (.ofIterations (status_ofProgress ended))

/-- All that can end a run over a configuration that has been loaded, other than its last request. -/
theorem failure_of_runFrom {seeded : Int → σ} {spareSeed : Int}
    (ended : (runFrom source seeded spareSeed arguments (.ok config) grants).status =
      .error failure) :
    (arguments.seed = some .nothing ∧ failure = .noSeed) ∨ arguments.limit = .error failure ∨
      ∃ state, Obstacle arguments (requests source config
        (arguments.name.getD Arguments.defaultName) arguments grants state) failure := by
  unfold runFrom at ended
  cases given : arguments.seed with
  | none =>
      rw [given] at ended
      exact .inr ((failure_of_runRequests ended).imp_right fun obstacle => ⟨_, obstacle⟩)
  | some seed =>
      rw [given] at ended
      cases seed with
      | nothing =>
          cases ended
          exact .inl ⟨rfl, rfl⟩
      | value seed => exact .inr ((failure_of_runRequests ended).imp_right fun obstacle => ⟨_, obstacle⟩)

end CExpr
