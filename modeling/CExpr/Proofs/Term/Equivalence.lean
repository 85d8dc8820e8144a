import CExpr.Proofs.Term.Bits
import CExpr.Proofs.Term.Fact
import CExpr.Proofs.Term.Trial
import CExpr.Term.Equivalence

/-!
The answers on terms are right. A search that ends without values rules out all values, since the
circuit shows what the assumptions are worth and every fact holds. Values that it does find are
tried, and a trial of all values decides what is left. So two terms are equivalent exactly if they
have the same value for all values of the variables.
-/
namespace CExpr

open Signal

namespace Term

variable {env : String → Word}

theorem eval_foldl_logicalAnd {terms : List Term} {start : Term} (one : start.eval env = 1)
    (met : ∀ t ∈ terms, t.isMet env = true) :
    (terms.foldl (binary .logicalAnd) start).eval env = 1 := by
  induction terms generalizing start with
  | nil => exact one
  | cons t rest ih =>
      refine ih ?_ fun t member => met t (List.mem_cons_of_mem _ member)
      have here := met t List.mem_cons_self
      rw [isMet] at here
      rw [eval, one, BinOp.apply, here]
      rfl

theorem yields_goal (whole : Term → Bool) {term : Term} (one : term.eval env = 1) :
    Yields (do (← term.bits (term.inputs whole) 1).any) fun goal =>
      goal.eval (truth (term.inputs whole) env) = true := by
  have covered : term.Covered (term.inputs whole) := covered_inputs whole fun _ member => member
  refine Yields.bind (yields_bits env covered (show 1 ≤ 64 by decide)) fun word shows => ?_
  refine (Bits.yields_any _ word).imp fun goal same => same.trans ?_
  rw [shows.2, one]
  rfl

theorem not_isMet_of_search {samples : List Sample} {limit : Nat} {facts : List Term}
    {whole : Term → Bool} {a : Assumptions} (never : search samples limit facts whole a = .never)
    (hold : ∀ fact ∈ facts, fact.isMet env = true) : ¬ a.IsMet env := by
  intro met
  revert never
  unfold search
  extract_lets all inputs store
  have one : all.eval env = 1 := eval_foldl_logicalAnd rfl (List.forall_mem_append.mpr ⟨hold, met⟩)
  have reached := yields_goal whole one store
  revert reached
  generalize StateT.run _ store = result
  obtain ⟨goal, store⟩ := result
  intro isTrue never
  simp only at isTrue never
  split at never
  · rename_i fixedFalse
    rw [fixedFalse] at isTrue
    cases isTrue
  · split at never
    · rename_i refuted _
      obtain ⟨signals, member, nowhere⟩ := refuted (truth (all.inputs whole) env)
      rw [List.mem_singleton.mp member, List.any_cons, isTrue] at nowhere
      cases nowhere
    · cases never
    · cases never

theorem not_isMet_of_tryAll {a : Assumptions} (never : tryAll a = .never) : ¬ a.IsMet env := by
  unfold tryAll at never
  split at never
  · split at never
    · cases never
    · rename_i nothing
      exact Assumptions.not_isMet_of_sample? nothing env
  · cases never

theorem holdsAt_iff {term : Term} {sample : Sample} :
    term.holdsAt sample = true ↔ term.eval sample.value ≠ 0 := bne_iff_ne

/-- Attempts that are right where they end with nothing decide, together with a trial of all
values. -/
theorem isValidBy_iff {term : Term} {attempts : List (Unit → Verdict)}
    (right : ∀ attempt ∈ attempts, attempt () = .never → ∀ env, term.eval env ≠ 0) :
    term.isValidBy attempts = true ↔ ∀ env, term.eval env ≠ 0 := by
  induction attempts with
  | nil =>
      rw [isValidBy, Option.isNone_iff_eq_none]
      constructor
      · intro nothing env zero
        refine Assumptions.not_isMet_of_sample? nothing env fun t member => ?_
        rw [List.mem_singleton.mp member]
        exact isMet_not_iff.mpr zero
      · intro valid
        refine Option.eq_none_iff_forall_ne_some.mpr fun sample found => ?_
        have met := Assumptions.isMet_of_sample? found _ (List.mem_singleton.mpr rfl)
        exact valid _ (isMet_not_iff.mp met)
  | cons attempt rest ih =>
      have rest := ih fun attempt member => right attempt (List.mem_cons_of_mem _ member)
      rw [isValidBy]
      split
      · rename_i never
        exact iff_of_true rfl (right attempt List.mem_cons_self never)
      · rename_i sample _
        rw [Bool.and_eq_true, rest, holdsAt_iff]
        exact and_iff_right_of_imp fun valid => valid sample.value
      · exact rest

theorem isValid_iff {term : Term} : term.isValid = true ↔ ∀ env, term.eval env ≠ 0 := by
  unfold isValid
  extract_lets reduced names words samples more plain normal facts
  have same : ∀ env, reduced.eval env = term.eval env := fun env => eval_normal env term
  have ofPlain : ∀ env, ¬ plain.IsMet env → term.eval env ≠ 0 := fun env unmet zero =>
    unmet (Assumptions.isMet_ofZero zero fun _ => rfl)
  have ofNormal : ∀ env, ¬ normal.IsMet env → term.eval env ≠ 0 := fun env unmet zero =>
    unmet (Assumptions.isMet_ofZero ((same env).trans zero) (eval_normal env))
  have hold : ∀ env, ∀ fact ∈ facts, fact.isMet env = true := by
    intro env fact member
    obtain ⟨t, _, fact⟩ := List.mem_flatMap.mp (List.mem_eraseDups.mp member)
    exact isMet_of_mem_facts fact
  have noFacts : ∀ env, ∀ fact ∈ ([] : List Term), fact.isMet env = true :=
    fun env => List.forall_mem_nil _
  rw [Bool.or_eq_true, decide_eq_true_eq, Bool.and_eq_true, isValidBy_iff]
  · constructor
    · rintro (constant | ⟨_, valid⟩) env
      · rw [← same, constant]
        exact (by decide : (1 : Word) ≠ 0)
      · exact valid env
    · intro valid
      exact .inr ⟨List.all_eq_true.mpr fun sample _ => holdsAt_iff.mpr (valid sample.value), valid⟩
  · simp only [List.forall_mem_cons]
    exact ⟨fun never env => ofNormal env (not_isMet_of_tryAll never),
      fun never env => ofNormal env (not_isMet_of_search never (noFacts env)),
      fun never env => ofNormal env (not_isMet_of_search never (hold env)),
      fun never env => ofPlain env (not_isMet_of_search never (noFacts env)),
      fun never env => ofNormal env (not_isMet_of_search never (hold env)),
      fun never env => ofNormal env (not_isMet_of_search never (noFacts env)), List.forall_mem_nil _⟩

theorem equivalent_iff {a b : Term} :
    a.equivalent b = true ↔ ∀ env, a.eval env = b.eval env := by
  rw [equivalent, Bool.or_eq_true, decide_eq_true_eq, isValid_iff]
  have equation : ∀ env, (binary .eq a b).eval env ≠ 0 ↔ a.eval env = b.eval env := fun env =>
    isMet_iff.symm.trans isMet_eq_iff
  simp only [equation]
  exact or_iff_right_of_imp fun same env => by rw [same]

end Term
end CExpr
