import CExpr.Clause.Assignment
import Std.Data.HashSet

/-!
Refutations: clauses that follow from the clauses before them, up to the empty one. Each names the
clauses that it follows from, in an order in which the next one always leaves at most one literal
open. Clauses from which a refutation leads to the empty one are never true together.
-/
namespace CExpr

structure Deduction where
  clause : Clause
  /-- The numbers of the clauses that it follows from. -/
  premises : List Nat

namespace Deduction

/-- Whether the premises contradict the literals known to be true. Of every premise all literals are
refuted, or all but one, which then is known as well. -/
def contradicts (known : Std.HashSet Literal) : List Clause → Bool
  | [] => false
  | premise :: rest =>
    match premise.filter fun l => !known.contains l.negate with
    | [] => true
    | [l] => contradicts (known.insert l) rest
    | _ => false

def follows (clauses : Array Clause) (deduction : Deduction) : Bool :=
  contradicts (.ofList (deduction.clause.map Literal.negate))
    (deduction.premises.filterMap (clauses[·]?))

def refutes (clauses : Array Clause) : List Deduction → Bool
  | [] => false
  | deduction :: rest =>
    deduction.follows clauses &&
      (deduction.clause.isEmpty || refutes (clauses.push deduction.clause) rest)

section Meaning

variable {truth : Nat → Bool}

theorem contradicts_eq_false {known : Std.HashSet Literal} {premises : List Clause}
    (knownTrue : ∀ l, l ∈ known → l.eval truth = true)
    (premisesTrue : ∀ c ∈ premises, c.eval truth = true) : contradicts known premises = false := by
  induction premises generalizing known with
  | nil => rfl
  | cons premise rest ih =>
    obtain ⟨l, member, holds⟩ := List.any_eq_true.1 (premisesTrue premise List.mem_cons_self)
    have isLeft : l ∈ premise.filter fun l => !known.contains l.negate := by
      refine List.mem_filter.2 ⟨member, ?_⟩
      rw [Bool.not_eq_true', ← Bool.not_eq_true]
      intro contained
      have := knownTrue _ (Std.HashSet.contains_iff_mem.1 contained)
      rw [Literal.eval_negate, holds] at this
      contradiction
    unfold contradicts
    split
    · simp_all
    · rename_i m only
      rw [only] at isLeft
      obtain rfl := List.mem_singleton.1 isLeft
      refine ih (fun k inserted => ?_) fun c later => premisesTrue c (List.mem_cons_of_mem _ later)
      rcases Std.HashSet.mem_insert.1 inserted with same | before
      · rw [← eq_of_beq same]
        exact holds
      · exact knownTrue k before
    · rfl

theorem eval_clause_of_follows {clauses : Array Clause} {deduction : Deduction}
    (follows : deduction.follows clauses = true) (holds : ∀ c ∈ clauses, c.eval truth = true) :
    deduction.clause.eval truth = true := by
  rw [← Bool.not_eq_false]
  intro isFalse
  have knownTrue (l : Literal)
      (member : l ∈ Std.HashSet.ofList (deduction.clause.map Literal.negate)) :
      l.eval truth = true := by
    obtain ⟨m, inClause, rfl⟩ : ∃ m ∈ deduction.clause, m.negate = l := by
      simpa [Std.HashSet.mem_ofList] using member
    have := List.any_eq_false.1 isFalse m inClause
    simp [Literal.eval_negate, this]
  have premisesTrue (c : Clause) (member : c ∈ deduction.premises.filterMap (clauses[·]?)) :
      c.eval truth = true := by
    obtain ⟨n, _, found⟩ := List.mem_filterMap.1 member
    exact holds c (Array.mem_of_getElem? found)
  exact Bool.false_ne_true ((contradicts_eq_false knownTrue premisesTrue).symm.trans follows)

theorem refutes_eq_false {clauses : Array Clause} {deductions : List Deduction}
    (holds : ∀ c ∈ clauses, c.eval truth = true) : refutes clauses deductions = false := by
  induction deductions generalizing clauses with
  | nil => rfl
  | cons deduction rest ih =>
    rw [refutes, Bool.and_eq_false_imp]
    intro follows
    have clauseTrue := eval_clause_of_follows follows holds
    rw [Bool.or_eq_false_iff]
    constructor
    · rw [← Bool.not_eq_true, List.isEmpty_iff]
      intro empty
      rw [empty] at clauseTrue
      contradiction
    · refine ih fun c member => ?_
      rcases Array.mem_push.1 member with before | rfl
      · exact holds c before
      · exact clauseTrue

/-- Clauses that have a refutation are never true together. -/
theorem exists_false_of_refutes {clauses : Array Clause} {deductions : List Deduction}
    (truth : Nat → Bool) (refutes : refutes clauses deductions = true) :
    ∃ c ∈ clauses, c.eval truth = false :=
  Classical.byContradiction fun never =>
    Bool.false_ne_true <| (refutes_eq_false fun c member =>
      eq_true_of_ne_false fun isFalse => never ⟨c, member, isFalse⟩).symm.trans refutes

end Meaning

end Deduction

end CExpr
