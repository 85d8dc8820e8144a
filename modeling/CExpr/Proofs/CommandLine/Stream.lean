import CExpr.Proofs.CommandLine.ReadBack
import CExpr.Proofs.Generator.Renaming

/-!
The stream of expressions. Which trees a run comes to is settled by the seed and the configuration:
how many are asked for, what is printed behind them, what is logged, how long each may take and what
the variable is called have no part in it. The stream is told here without any of these, and each
run prints a beginning of it, as long as its options were given something and its timeout is not too
long to be set.
-/
namespace CExpr

variable {σ : Type}

def stream (source : Source σ) (config : ValidConfig) (name : String) : Nat → σ → List Expr
  | 0, _ => []
  | count + 1, state =>
    match Generator.generate source config name Generator.depthLimit state with
    | (.ok e, after) => e :: stream source config name count after
    | (.error _, _) => []

variable {source : Source σ} {config : ValidConfig} {name : String}

theorem stream_take {count more : Nat} (fewer : count ≤ more) (state : σ) :
    (stream source config name more state).take count = stream source config name count state := by
  induction count generalizing more state with
  | zero => rfl
  | succ count ih =>
      obtain ⟨more, rfl⟩ : ∃ other, more = other + 1 := ⟨more - 1, by omega⟩
      rw [stream, stream]
      split
      · rw [List.take_succ_cons, ih (Nat.le_of_succ_le_succ fewer)]
      · rfl

theorem stream_grows {count more : Nat} (fewer : count ≤ more) (state : σ) :
    stream source config name count state <+: stream source config name more state := by
  rw [← stream_take fewer]
  exact List.take_prefix _ _

theorem stream_getElem? {count more index : Nat} (inside : index < count) (within : index < more)
    (state : σ) :
    (stream source config name count state)[index]? =
      (stream source config name more state)[index]? := by
  have upTo {length : Nat} (beyond : index < length) :
      (stream source config name length state)[index]? =
        (stream source config name (index + 1) state)[index]? := by
    rw [← stream_take beyond, List.getElem?_take_of_lt (Nat.lt_succ_self index)]
  rw [upTo inside, upTo within]

namespace Iteration

/-- A request that is not cut short comes to what is drawn without a grant, over any name. -/
theorem generate_of_once (other : String) (grant : Option Nat) (state : σ) :
    match once source config name grant state with
    | (generated e, after) =>
      Generator.generate source config other Generator.depthLimit state =
        (.ok (e.renamed other), after)
    | (failed e, after) =>
      Generator.generate source config other Generator.depthLimit state = (.error e, after)
    | (skipped, _) => True := by
  cases grant with
  | none =>
      have ends := Generator.generate_renamed source.goesAfter_self config name other
        Generator.depthLimit (Eq.refl state)
      rw [once]
      generalize Generator.generate source config name Generator.depthLimit state = drawn at ends ⊢
      obtain ⟨e | tree, after⟩ := drawn
      · obtain never | ⟨_, rfl, same⟩ := ends
        · exact never.elim
        · exact same
      · obtain ⟨_, rfl, same⟩ := ends
        exact same
  | some draws =>
      have start : (state, draws).1 = state := rfl
      have ends := Generator.generate_renamed source.limited_goesAfter config name other
        Generator.depthLimit start
      rw [once]
      generalize Generator.generate source.limited config name Generator.depthLimit (state, draws) =
        drawn at ends ⊢
      obtain ⟨e | tree, after, left⟩ := drawn
      · obtain rfl | ⟨_, rfl, same⟩ := ends
        · trivial
        · cases e with
          | interrupted => trivial
          | _ => exact same
      · obtain ⟨_, rfl, same⟩ := ends
        cases left with
        | zero => trivial
        | succ left => exact same

theorem stream_of_series (other : String) {grants : Nat → Option Nat} {left index : Nat} {state : σ}
    (patient : skipped ∉ series source config name grants left index state) :
    stream source config other left state =
      ((series source config name grants left index state).filterMap tree?).map
        (Expr.renamed other) := by
  induction left generalizing index state with
  | zero => rfl
  | succ left ih =>
      have same := @generate_of_once σ source config name other (grants index) state
      rw [series] at patient ⊢
      rw [stream]
      generalize once source config name (grants index) state = ends at *
      obtain ⟨iteration, after⟩ := ends
      cases iteration with
      | generated e =>
          dsimp only at same patient ⊢
          rw [same]
          have later := ih (fun member => patient (List.mem_cons_of_mem _ member))
          exact congrArg (e.renamed other :: ·) later
      | skipped => exact absurd List.mem_cons_self patient
      | failed e =>
          dsimp only at same ⊢
          rw [same]
          rfl

theorem renamed_of_mem_series {grants : Nat → Option Nat} {left index : Nat} {state : σ} {e : Expr}
    (member : generated e ∈ series source config name grants left index state) :
    e.renamed name = e :=
  holds_of_mem_series (fun _ _ _ returned => Generator.renamed_of_generate returned)
    (fun _ _ _ returned => Generator.renamed_of_generate returned) grants left index state e member

end Iteration

namespace Expr

/-- The visit of all nodes finds a double exactly where the recursion over the tree does. -/
theorem isIntegerOnly_iff {e : Expr} : e.isIntegerOnly = true ↔ e.hasDouble = false := by
  have nodes : e.isIntegerOnly = true ↔ e.EveryNode fun node => node.isDouble = false := by
    rw [everyNode_iff]
    simp [isIntegerOnly]
  rw [nodes]
  clear nodes
  induction e with
  | integer value | var name => exact ⟨fun _ => rfl, fun _ => rfl⟩
  | double value => exact ⟨nofun, nofun⟩
  | unary op operand ih | parens operand ih => exact (and_iff_right rfl).trans ih
  | binary op lhs rhs left right =>
      exact (and_iff_right rfl).trans ((and_congr left right).trans Bool.or_eq_false_iff.symm)

end Expr

def Prints (arguments : Arguments) (name line : String) (e : Expr) : Prop :=
  if arguments.reference && e.isIntegerOnly then
    ∃ value, e.reference [(name, arguments.nameValue.getD 0)] = .ok value ∧
      line = e.text ++ "\t" ++ toString value.toNat
  else line = e.text

section Lines

variable {arguments : Arguments} {e : Expr}

theorem Expr.exists_valueFor (named : arguments.name = .value name)
    (valued : arguments.nameValue ≠ .nothing) (kept : e.renamed name = e)
    (integers : e.isIntegerOnly = true) :
    ∃ value, e.reference [(name, arguments.nameValue.getD 0)] = .ok value ∧
      e.valueFor arguments = .ok value := by
  have covers : Bindings.Covers [(name, arguments.nameValue.getD 0)] e.names := by
    intro other member
    rw [← kept] at member
    cases mem_names_renamed member
    simp
  have value := reference_eq_value (isIntegerOnly_iff.mp integers) covers
  refine ⟨_, value, ?_⟩
  rw [valueFor, named]
  simp only [valued, decide_false, Bool.false_and, Bool.false_eq_true, if_false, value]
  rfl

theorem Expr.exists_line (named : arguments.name = .value name)
    (valued : arguments.reference = true → arguments.nameValue ≠ .nothing)
    (kept : e.renamed name = e) :
    ∃ line, e.line arguments = .ok line ∧ Prints arguments name line e := by
  rw [Expr.line, Expr.textFor_eq_text named]
  by_cases asked : (arguments.reference && e.isIntegerOnly) = true
  · obtain ⟨wanted, integers⟩ := Bool.and_eq_true_iff.mp asked
    obtain ⟨value, reference, found⟩ :=
      Expr.exists_valueFor named (valued wanted) kept integers
    rw [if_pos asked, found]
    refine ⟨_, rfl, ?_⟩
    rw [Prints, if_pos asked]
    exact ⟨value, reference, rfl⟩
  · rw [if_neg asked]
    refine ⟨_, rfl, ?_⟩
    rw [Prints, if_neg asked]

theorem Expr.exists_records (named : arguments.name = .value name) :
    ∃ records, e.records arguments = .ok records := by
  rw [Expr.records, Expr.textFor_eq_text named]
  split <;> exact ⟨_, rfl⟩

theorem prints_series (named : arguments.name = .value name)
    (valued : arguments.reference = true → arguments.nameValue ≠ .nothing) (timeout : Int)
    (grants : Nat → Option Nat) (left index : Nat) (state : σ) :
    let iterations := Iteration.series source config name grants left index state
    List.Forall₂ (Prints arguments name)
      (Report.Progress.ofIterations arguments timeout index iterations).lines
      (iterations.filterMap Iteration.tree?) := by
  induction left generalizing index state with
  | zero => exact .nil
  | succ left ih =>
      have kept : ∀ e, .generated e ∈ Iteration.series source config name grants (left + 1) index
          state → e.renamed name = e := fun _ => Iteration.renamed_of_mem_series
      intro iterations
      have same : iterations = Iteration.series source config name grants (left + 1) index state :=
        rfl
      clear_value iterations
      rw [Iteration.series] at same kept
      generalize Iteration.once source config name (grants index) state = ends at same kept
      obtain ⟨iteration, after⟩ := ends
      have later := ih (index + 1) after
      cases iteration with
      | generated e =>
          obtain ⟨line, written, prints⟩ :=
            Expr.exists_line named valued (kept e List.mem_cons_self)
          obtain ⟨records, recorded⟩ := Expr.exists_records (e := e) named
          rw [same, Report.Progress.ofIterations, Report.Progress.ofTree, recorded]
          dsimp only
          rw [written]
          exact .cons prints later
      | skipped =>
          rw [same]
          exact later
      | failed e =>
          rw [same]
          exact .nil

theorem lines_ofProgress (warnings summary : List LogRecord) (progress : Report.Progress) :
    (Report.ofProgress warnings summary progress).lines = progress.lines := by
  unfold Report.ofProgress
  split <;> rfl

end Lines

def requests (source : Source σ) (config : ValidConfig) (name : String) (arguments : Arguments)
    (grants : Nat → Option Nat) (state : σ) : List Iteration :=
  Iteration.series source config name
    (fun index => if 0 < arguments.timeout.getD 0 then grants index else none)
    (arguments.count.getD 0).toNat 0 state

section Printing

variable {arguments : Arguments} {timeout : Int}

theorem prints_runRequests (named : arguments.name = .value name)
    (valued : arguments.reference = true → arguments.nameValue ≠ .nothing)
    (limit : arguments.limit = .ok timeout) (state : σ) (seed : Option Int)
    (grants : Nat → Option Nat) (warnings : List LogRecord) :
    List.Forall₂ (Prints arguments name)
      (runRequests source state arguments config seed grants warnings).lines
      ((requests source config name arguments grants state).filterMap Iteration.tree?) := by
  have given := Arguments.timeout_of_limit limit
  rw [runRequests, limit, requests, given, named]
  cases (arguments.count.getD 0).toNat with
  | zero => exact .nil
  | succ count =>
      have shown := @prints_series σ source config name arguments named valued timeout
        (fun index => if 0 < timeout then grants index else none) (count + 1) 0 state
      dsimp only
      rw [lines_ofProgress]
      exact shown

/-- A run whose options were given something prints all of its trees, if its timeout can be set. -/
theorem prints_runFrom (named : arguments.name = .value name)
    (valued : arguments.reference = true → arguments.nameValue ≠ .nothing)
    (limit : arguments.limit = .ok timeout) (sown : arguments.seed ≠ some .nothing)
    (seeded : Int → σ) (spareSeed : Int) (grants : Nat → Option Nat) :
    List.Forall₂ (Prints arguments name)
      (runFrom source seeded spareSeed arguments (.ok config) grants).lines
      (runTrees source seeded spareSeed arguments config grants) := by
  rw [runFrom, runTrees, named]
  cases given : arguments.seed with
  | none => exact prints_runRequests named valued limit _ none grants _
  | some seed =>
      cases seed with
      | value seed => exact prints_runRequests named valued limit _ (some seed) grants _
      | nothing => exact absurd given sown

end Printing

/-- A run that nothing disturbs: the options that it looks at were given something, the timeout can
be set, and no request exceeds it. -/
structure Undisturbed (source : Source σ) (config : ValidConfig) (state : σ) (seed : Int)
    (name : String) (arguments : Arguments) (grants : Nat → Option Nat) : Prop where
  seeded : arguments.seed = some (.value seed)
  named : arguments.name = .value name
  valued : arguments.reference = true → arguments.nameValue ≠ .nothing
  limited : ∃ timeout, arguments.limit = .ok timeout
  patient : .skipped ∉ requests source config name arguments grants state

namespace Undisturbed

variable {seeded : Int → σ} {seed : Int} {arguments : Arguments} {grants : Nat → Option Nat}

theorem runTrees_eq (run : Undisturbed source config (seeded seed) seed name arguments grants)
    (spareSeed : Int) : runTrees source seeded spareSeed arguments config grants =
      (requests source config name arguments grants (seeded seed)).filterMap Iteration.tree? := by
  rw [runTrees, run.seeded, run.named]
  rfl

theorem stream_eq (run : Undisturbed source config (seeded seed) seed name arguments grants)
    (spareSeed : Int) (other : String) :
    stream source config other (arguments.count.getD 0).toNat (seeded seed) =
      (runTrees source seeded spareSeed arguments config grants).map (Expr.renamed other) := by
  rw [run.runTrees_eq]
  exact Iteration.stream_of_series other run.patient

theorem runTrees_eq_stream
    (run : Undisturbed source config (seeded seed) seed name arguments grants) (spareSeed : Int) :
    runTrees source seeded spareSeed arguments config grants =
      stream source config name (arguments.count.getD 0).toNat (seeded seed) := by
  have kept : ∀ e ∈ runTrees source seeded spareSeed arguments config grants,
      e.renamed name = e := by
    intro e member
    rw [run.runTrees_eq] at member
    obtain ⟨iteration, requested, told⟩ := List.mem_filterMap.mp member
    cases Iteration.tree?_eq_some.mp told
    exact Iteration.renamed_of_mem_series requested
  rw [run.stream_eq spareSeed, List.map_congr_left kept, List.map_id']

theorem prints (run : Undisturbed source config (seeded seed) seed name arguments grants)
    (spareSeed : Int) : List.Forall₂ (Prints arguments name)
      (runFrom source seeded spareSeed arguments (.ok config) grants).lines
      (runTrees source seeded spareSeed arguments config grants) := by
  obtain ⟨timeout, limit⟩ := run.limited
  have sown : arguments.seed ≠ some .nothing := by
    rw [run.seeded]
    exact nofun
  exact prints_runFrom run.named run.valued limit sown seeded spareSeed grants

end Undisturbed

/-- Two runs of one seed over one configuration that nothing disturbs, whatever else their options
say. Up to the name of the variable they come to the same trees, as far as both go; each prints all
of its trees in their order, one line each, with a value behind them or without; and over the same
variable the texts of the shorter run are the first ones of the longer run. -/
theorem streams_agree (source : Source σ) (seeded : Int → σ) (config : ValidConfig) (seed : Int)
    (name other : String) (first second : Arguments) (spareSeed otherSpareSeed : Int)
    (grants otherGrants : Nat → Option Nat)
    (run : Undisturbed source config (seeded seed) seed name first grants)
    (twin : Undisturbed source config (seeded seed) seed other second otherGrants) :
    let trees := runTrees source seeded spareSeed first config grants
    let others := runTrees source seeded otherSpareSeed second config otherGrants
    (∀ i : Nat, i < first.count.getD 0 → i < second.count.getD 0 →
        others[i]? = trees[i]?.map (Expr.renamed other)) ∧
      List.Forall₂ (Prints first name)
        (runFrom source seeded spareSeed first (.ok config) grants).lines trees ∧
      List.Forall₂ (Prints second other)
        (runFrom source seeded otherSpareSeed second (.ok config) otherGrants).lines others ∧
      (name = other → first.count.getD 0 ≤ second.count.getD 0 →
        trees.map Expr.text <+: others.map Expr.text) := by
  intro trees others
  have own : trees = _ := run.runTrees_eq_stream spareSeed
  have common : _ = trees.map (Expr.renamed other) := run.stream_eq spareSeed other
  have otherOwn : others = _ := twin.runTrees_eq_stream otherSpareSeed
  refine ⟨?_, run.prints spareSeed, twin.prints otherSpareSeed, ?_⟩
  · intro i inside within
    rw [← List.getElem?_map, ← common, otherOwn]
    exact stream_getElem? (Int.lt_toNat.mpr within) (Int.lt_toNat.mpr inside) (seeded seed)
  · rintro rfl fewer
    rw [own, otherOwn]
    exact (stream_grows (Int.toNat_le_toNat fewer) (seeded seed)).map Expr.text

/-- A run for one sum with its value, and one for two sums over another variable with a grant for
each of them. -/
theorem streams_agree_sums :
    let source := (Engine.constant (.ofRatio false 1 2)).source
    let config : ValidConfig := ⟨.default, Config.default_valid⟩
    let first : Arguments := { Arguments.default with
      seed := some (.value 1), count := .value 1, reference := true, nameValue := .value 7,
      debug := true }
    let second : Arguments := { Arguments.default with
      seed := some (.value 1), count := .value 2, name := .value "y", timeout := .value 5 }
    let grants : Nat → Option Nat := fun _ => some 100
    let trees := runTrees source (fun _ => ()) 0 first config fun _ => none
    let others := runTrees source (fun _ => ()) 0 second config grants
    (Undisturbed source config () 1 "x" first (fun _ => none) ∧
        Undisturbed source config () 1 "y" second grants) ∧
      (runFrom source (fun _ => ()) 0 first (.ok config) fun _ => none).lines = ["x + x\t14"] ∧
      (runFrom source (fun _ => ()) 0 second (.ok config) grants).lines = ["y + y", "y + y"] ∧
      trees[0]? = some (.binary .plus (.var "x") (.var "x")) ∧
      others[0]? = trees[0]?.map (Expr.renamed "y") := by
  intro source config first second grants trees others
  have run : Undisturbed source config () 1 "x" first (fun _ => none) :=
    ⟨rfl, rfl, nofun, ⟨0, rfl⟩, by decide +kernel⟩
  have twin : Undisturbed source config () 1 "y" second grants :=
    ⟨rfl, rfl, nofun, ⟨5, rfl⟩, by decide +kernel⟩
  have agree := streams_agree source (fun _ => ()) config 1 "x" "y" first second 0 0 (fun _ => none)
    grants run twin
  exact ⟨⟨run, twin⟩, by decide +kernel, by decide +kernel, by decide +kernel,
    agree.1 0 (by decide) (by decide)⟩

/-- A timeout of 2^31 seconds is accepted, but it cannot be set: the run breaks off before its first
tree, where the same run without a timeout prints one. -/
theorem not_forall_streams_agree :
    let source := (Engine.constant (.ofRatio false 1 2)).source
    let config : ValidConfig := ⟨.default, Config.default_valid⟩
    let words := ["--seed", "1", "--count", "1"]
    let timedWords := words ++ ["--timeout", "2147483648"]
    ∃ plain timed, Arguments.ofWords (words.map String.toList) = .ok plain ∧
      Arguments.ofWords (timedWords.map String.toList) = .ok timed ∧
      timed = { plain with timeout := .value 2147483648 } ∧
      let report := runFrom source (fun _ => ()) 0 plain (.ok config) fun _ => none
      let timedReport := runFrom source (fun _ => ()) 0 timed (.ok config) fun _ => none
      report.lines = ["x + x"] ∧ timedReport.lines = [] ∧
        timedReport.status = .error (.timeoutTooLong 2147483648) ∧
        ¬ report.lines <+: timedReport.lines := by
  intro source config words timedWords
  let plain : Arguments := { Arguments.default with seed := some (.value 1), count := .value 1 }
  let timed : Arguments := { plain with timeout := .value 2147483648 }
  have accepted : Arguments.ofWords (words.map String.toList) = .ok plain :=
    ok_of_toOption (by decide +kernel)
  have timedAccepted : Arguments.ofWords (timedWords.map String.toList) = .ok timed :=
    ok_of_toOption (by decide +kernel)
  have lines : (runFrom source (fun _ => ()) 0 plain (.ok config) fun _ => none).lines =
      ["x + x"] := by decide +kernel
  refine ⟨plain, timed, accepted, timedAccepted, rfl, lines, rfl, rfl, ?_⟩
  rw [lines]
  decide

end CExpr
