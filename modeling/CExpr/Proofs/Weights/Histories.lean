import CExpr.Proofs.Weights.Mirroring

/-!
Weights through any history. Since every step of a program that can write to its lists goes as its
request to the registers does, after any steps every register has one weight for each kind, zero or
more and a number, whatever the caller did to the lists it gave and was given; a step that fails
changes no register, and one that does not fail changes no weight but those it is about.
-/
namespace CExpr

def WorkStep.Addresses : WorkStep → String → WeightTable → Nat → Prop
  | build register _ _, other, _, _ | configure register _, other, _, _
  | copy register _, other, _, _ => register = other
  | set register member _, other, table, index | scale register member _, other, table, index =>
    register = other ∧ ∃ slot, member.slot? = some slot ∧ slot.table = table ∧ slot.index = index
  | _, _, _, _ => False

namespace Workspace

def requests (space : Workspace) : List WorkStep → List RegisterStep
  | [] => []
  | next :: rest => (space.request? next).toList ++ (space.after next).requests rest

/-- Every register has one weight for each kind of either table, zero or more and a number. -/
def Legal (space : Workspace) : Prop :=
  ∀ register holding, space.holdings.lookup register = some holding → ∀ table, ∃ values,
    space.contents register table = some values ∧ values.length = table.vocabulary.memberNames.length ∧
      ∀ value ∈ values, value.isNonnegative = true ∧ value ≠ .nan

def weight? (space : Workspace) (register : String) (table : WeightTable) (index : Nat) :
    Option Double :=
  (space.contents register table).bind (·[index]?)

section Histories

variable {space : Workspace} {registers : Registers}

theorem after_shows (shown : space.Shows registers) (next : WorkStep) :
    (space.after next).Shows ((space.request? next).toList.foldl Registers.after registers) := by
  cases asked : space.request? next with
  | none => exact after_unasked shown asked
  | some request =>
      have mirrored := step_mirrors shown asked
      unfold after
      change Shows _ (registers.after request)
      unfold Registers.after
      cases outcome : (step next).run space with
      | ok answer after =>
          rw [outcome] at mirrored
          cases mirrored with
          | ok went shown =>
              rw [went]
              exact shown
      | error e after =>
          rw [outcome] at mirrored
          cases mirrored with
          | error failed shown =>
              rw [failed]
              exact shown

theorem run_shows (shown : space.Shows registers) (steps : List WorkStep) :
    (steps.foldl after space).Shows ((space.requests steps).foldl Registers.after registers) := by
  induction steps generalizing space registers with
  | nil => exact shown
  | cons next rest ih =>
      rw [List.foldl_cons, requests, List.foldl_append]
      exact ih (after_shows shown next)

theorem Shows.legal (shown : space.Shows registers) : space.Legal := by
  intro register holding found table
  have both := shown.holdings_isSome register
  rw [found] at both
  obtain ⟨weights, held⟩ := Option.isSome_iff_exists.mp both.symm
  have complete : table.vocabulary.width = table.vocabulary.memberNames.length := by
    cases table <;> rfl
  refine ⟨weights.list table, ?_, (weights.length_list table).trans complete, ?_⟩
  · rw [shown.shows, Registers.contents, held]
    rfl
  · intro value member
    have legal := Weights.isNonnegative_of_mem_list member
    refine ⟨legal, ?_⟩
    rintro rfl
    cases legal

theorem Shows.weight?_eq (shown : space.Shows registers) (register : String) (table : WeightTable)
    (index : Nat) : space.weight? register table index = registers.weight? register table index := by
  rw [weight?, shown.shows, Registers.weight?]

theorem addresses_of_request {next : WorkStep} {request : RegisterStep} {register : String}
    {table : WeightTable} {index : Nat} (asked : space.request? next = some request)
    (about : request.Addresses register table index) : next.Addresses register table index := by
  cases next with
  | build other exprs types =>
      obtain ⟨_, _, rest⟩ := Option.bind_eq_some_iff.mp asked
      obtain ⟨_, _, same⟩ := Option.bind_eq_some_iff.mp rest
      cases same
      exact about
  | list values => cases asked
  | overwrite which values => cases asked
  | _ => cases asked; exact about

theorem shows_of_error (shown : space.Shows registers) {next : WorkStep} {e : WorkError}
    {after : Workspace} (failed : (step next).run space = .error e after) :
    after.Shows registers := by
  cases asked : space.request? next with
  | none =>
      have still := after_unasked shown asked
      unfold Workspace.after at still
      rw [failed] at still
      exact still
  | some request =>
      have mirrored := step_mirrors shown asked
      rw [failed] at mirrored
      cases mirrored with
      | error _ shown => exact shown

theorem weight?_of_ok (shown : space.Shows registers) {next : WorkStep} {answer : WorkAnswer}
    {after : Workspace} (went : (step next).run space = .ok answer after) {register : String}
    {table : WeightTable} {index : Nat} (apart : ¬ next.Addresses register table index) :
    after.weight? register table index = space.weight? register table index := by
  rw [shown.weight?_eq]
  cases asked : space.request? next with
  | none =>
      have still := after_unasked shown asked
      unfold Workspace.after at still
      rw [went] at still
      exact still.weight?_eq register table index
  | some request =>
      have mirrored := step_mirrors shown asked
      rw [went] at mirrored
      cases mirrored with
      | ok running shown =>
          rw [shown.weight?_eq]
          exact Registers.weight?_step running fun about => apart (addresses_of_request asked about)

/-- After any history the weights are those of the running registers and legal, and the next step goes
as its request does: it changes nothing if it fails, and only what it is about if it does not. -/
theorem weights_stay_legal (steps : List WorkStep) (next : WorkStep) :
    (∀ register table, (run steps).contents register table =
      Registers.contents ((empty.requests steps).foldl Registers.after []) register table) ∧
    (run steps).Legal ∧
    (∀ request, (run steps).request? next = some request →
      Mirrors ((empty.requests steps).foldl Registers.after []) request
        ((step next).run (run steps))) ∧
    (∀ e after, (step next).run (run steps) = .error e after → ∀ register table,
      after.contents register table = (run steps).contents register table) ∧
    ∀ answer after, (step next).run (run steps) = .ok answer after → ∀ register table index,
      ¬ next.Addresses register table index →
        after.weight? register table index = (run steps).weight? register table index := by
  have shown : (run steps).Shows ((empty.requests steps).foldl Registers.after []) :=
    run_shows shows_empty steps
  refine ⟨shown.shows, shown.legal, fun request asked => step_mirrors shown asked, ?_, ?_⟩
  · intro e after failed register table
    rw [(shows_of_error shown failed).shows, shown.shows]
  · intro answer after went register table index apart
    exact weight?_of_ok shown went apart

/-- The caller gave its list, was handed one, and spoiled both; then zero times infinity is refused for
the copy, and a slot that is set in the copy is not set in the original. -/
theorem weights_stay_legal_copied :
    let values : List Double := [.infinite false, .zero false, .zero false, .zero false, .zero false]
    let steps : List WorkStep := [.list values, .build "a" (some 0) none, .copy "b" "a",
      .hand "b" .exprKinds, .overwrite 0 [], .overwrite 1 [.nan]]
    let scaled := WorkStep.scale "b" (.ofExprKind .doubleConstant) (.infinite false)
    let replaced := WorkStep.set "b" (.ofExprKind .integerConstant) (.zero true)
    (∃ e after, (step scaled).run (run steps) = .error e after ∧
      after.contents "b" .exprKinds = some values) ∧
    ∃ answer after, (step replaced).run (run steps) = .ok answer after ∧
      after.weight? "a" .exprKinds 0 = some (.infinite false) := by
  intro values steps scaled replaced
  constructor
  · have fails : ((step scaled).run' (run steps)).isNone = true := by decide +kernel
    cases outcome : (step scaled).run (run steps) with
    | ok answer after =>
        delta EStateM.run' at fails
        rw [outcome] at fails
        cases fails
    | error e after =>
        have left := (weights_stay_legal steps scaled).2.2.2.1 e after outcome "b" .exprKinds
        exact ⟨e, after, rfl, left.trans (by decide +kernel)⟩
  · have succeeds : ((step replaced).run' (run steps)).isSome = true := by decide +kernel
    cases outcome : (step replaced).run (run steps) with
    | error e after =>
        delta EStateM.run' at succeeds
        rw [outcome] at succeeds
        cases succeeds
    | ok answer after =>
        have left := (weights_stay_legal steps replaced).2.2.2.2 answer after outcome "a" .exprKinds 0
          fun about => absurd about.1 (by decide)
        exact ⟨answer, after, rfl, left.trans (by decide +kernel)⟩

end Histories
end Workspace
end CExpr
