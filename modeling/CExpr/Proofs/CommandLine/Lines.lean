import CExpr.CommandLine.Run
import CExpr.Proofs.Outcome
import Mathlib.Data.List.Forall2

/-!
What a run prints. The trees that a run generates are told by the requests alone. Of these trees the
first ones are printed, one line each and in their order, and all of them are unless something breaks
the run off.
-/
namespace CExpr

variable {σ : Type}

namespace Iteration

/-- What holds of every tree that a single request can return, with a grant or without, holds of all
trees of a series. -/
theorem holds_of_mem_series {source : Source σ} {config : ValidConfig} {name : String}
    {holds : Expr → Prop}
    (plain : ∀ s after e,
      Generator.generate source config name Generator.depthLimit s = (.ok e, after) → holds e)
    (limited : ∀ s after e,
      Generator.generate source.limited config name Generator.depthLimit s = (.ok e, after) → holds e)
    (grants : Nat → Option Nat) (left index : Nat) (state : σ) :
    ∀ e, generated e ∈ series source config name grants left index state → holds e := by
  have one (grant : Option Nat) (state next : σ) (e : Expr)
      (returned : once source config name grant state = (generated e, next)) : holds e := by
    cases grant with
    | none =>
        rw [once] at returned
        split at returned <;> cases returned
        exact plain _ _ _ ‹_›
    | some draws =>
        rw [once] at returned
        split at returned <;> cases returned
        exact limited _ _ _ ‹_›
  induction left generalizing index state with
  | zero =>
      intro e member
      cases member
  | succ left ih =>
      intro e member
      rw [series] at member
      split at member
      · cases List.mem_singleton.mp member
      · rcases List.mem_cons.mp member with rfl | later
        · exact one _ _ _ e ‹_›
        · exact ih _ _ e later

theorem tree?_eq_some {iteration : Iteration} {e : Expr} :
    iteration.tree? = some e ↔ iteration = generated e := by
  cases iteration <;> simp [tree?]

end Iteration

/-- The trees that a run generates, whether or not it comes to print them. -/
def runTrees (source : Source σ) (seeded : Int → σ) (spareSeed : Int) (arguments : Arguments)
    (config : ValidConfig) (grants : Nat → Option Nat) : List Expr :=
  let seed := (arguments.seed.map (·.getD spareSeed)).getD spareSeed
  let granted := fun index => if 0 < arguments.timeout.getD 0 then grants index else none
  let name := arguments.name.getD Arguments.defaultName
  (Iteration.series source config name granted (arguments.count.getD 0).toNat 0
    (seeded seed)).filterMap Iteration.tree?

def Shows (arguments : Arguments) (trees : List Expr) (lines : List String) (whole : Prop) : Prop :=
  ∃ printed rest, trees = printed ++ rest ∧
    List.Forall₂ (fun line e => e.line arguments = .ok line) lines printed ∧ (whole → rest = [])

theorem Arguments.timeout_of_limit {arguments : Arguments} {timeout : Int}
    (limit : arguments.limit = .ok timeout) : arguments.timeout = .value timeout := by
  unfold Arguments.limit at limit
  cases given : arguments.timeout with
  | nothing =>
      rw [given] at limit
      cases limit
  | value seconds =>
      rw [given] at limit
      dsimp only at limit
      split at limit <;> cases limit
      rfl

namespace Shows

variable {arguments : Arguments} {trees : List Expr} {lines : List String} {whole : Prop}

theorem nothing (broken : ¬ whole) : Shows arguments trees [] whole :=
  ⟨[], trees, rfl, .nil, fun ended => absurd ended broken⟩

theorem cons {e : Expr} {line : String} (written : e.line arguments = .ok line)
    (shows_ : Shows arguments trees lines whole) :
    Shows arguments (e :: trees) (line :: lines) whole := by
  obtain ⟨printed, rest, rfl, later, all⟩ := shows_
  exact ⟨e :: printed, rest, rfl, .cons written later, all⟩

theorem imp {other : Prop} (weaker : other → whole) (shows_ : Shows arguments trees lines whole) :
    Shows arguments trees lines other := by
  obtain ⟨printed, rest, same, told, all⟩ := shows_
  exact ⟨printed, rest, same, told, fun ended => all (weaker ended)⟩

theorem ofTree {e : Expr} {progress : Report.Progress}
    (later : Shows arguments trees progress.lines (progress.failure = none)) :
    Shows arguments (e :: trees) (Report.Progress.ofTree arguments e progress).lines
      ((Report.Progress.ofTree arguments e progress).failure = none) := by
  unfold Report.Progress.ofTree
  cases e.records arguments with
  | error failure => exact nothing nofun
  | ok records =>
      cases written : e.line arguments with
      | error failure => exact nothing nofun
      | ok line => exact later.cons written

theorem ofIterations (timeout : Int) (index : Nat) (iterations : List Iteration) :
    Shows arguments (iterations.filterMap Iteration.tree?)
      (Report.Progress.ofIterations arguments timeout index iterations).lines
      ((Report.Progress.ofIterations arguments timeout index iterations).failure = none) := by
  -- From the last request back: what is still to come is part of what a request leads to.
  induction iterations generalizing index with
  | nil => exact ⟨[], [], rfl, .nil, fun _ => rfl⟩
  | cons iteration iterations ih =>
      cases iteration with
      | generated e => exact (ih (index + 1)).ofTree
      | skipped => exact ih (index + 1)
      | failed e => exact nothing nofun

theorem ofProgress {warnings summary : List LogRecord} {progress : Report.Progress}
    (shows_ : Shows arguments trees progress.lines (progress.failure = none)) :
    Shows arguments trees (Report.ofProgress warnings summary progress).lines
      ((Report.ofProgress warnings summary progress).status = .ok 0) := by
  unfold Report.ofProgress
  cases failed : progress.failure with
  | none => exact shows_.imp fun _ => failed
  | some failure => exact shows_.imp nofun

theorem runRequests (source : Source σ) (state : σ) (config : ValidConfig) (seed : Option Int)
    (grants : Nat → Option Nat) (warnings : List LogRecord) :
    Shows arguments
      ((Iteration.series source config (arguments.name.getD Arguments.defaultName)
        (fun index => if 0 < arguments.timeout.getD 0 then grants index else none)
        (arguments.count.getD 0).toNat 0 state).filterMap Iteration.tree?)
      (runRequests source state arguments config seed grants warnings).lines
      ((CExpr.runRequests source state arguments config seed grants warnings).status = .ok 0) := by
  unfold CExpr.runRequests
  generalize (arguments.count.getD 0).toNat = count
  cases count with
  | zero => exact ⟨[], [], rfl, .nil, fun _ => rfl⟩
  | succ count =>
      cases limit : arguments.limit with
      | error failure => exact nothing nofun
      | ok timeout =>
          rw [Arguments.timeout_of_limit limit]
          exact (ofIterations timeout 0 _).ofProgress

/-- Whatever ends a run, its lines are those of its first trees. -/
theorem runFrom (source : Source σ) (seeded : Int → σ) (spareSeed : Int) (config : ValidConfig)
    (grants : Nat → Option Nat) :
    Shows arguments (runTrees source seeded spareSeed arguments config grants)
      (runFrom source seeded spareSeed arguments (.ok config) grants).lines
      ((CExpr.runFrom source seeded spareSeed arguments (.ok config) grants).status = .ok 0) := by
  unfold runTrees CExpr.runFrom
  cases arguments.seed with
  | none => exact runRequests source _ config none grants _
  | some given =>
      cases given with
      | value seed => exact runRequests source _ config (some seed) grants _
      | nothing => exact nothing nofun

end Shows
end CExpr
