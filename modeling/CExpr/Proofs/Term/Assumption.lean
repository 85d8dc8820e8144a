import CExpr.Proofs.Polynomial.Normal
import CExpr.Term.Assumption

/-!
Assumptions that follow from what is wanted. Values of the variables that make a term zero meet all
assumptions under which it is zero, also after replacements: a replacement is only made where the
values agree with it, so it changes none of the terms there. What is never met by any values
therefore never was wanted of them.
-/
namespace CExpr

namespace Term

variable {env : String → Word}

def isMet (env : String → Word) (term : Term) : Bool := term.eval env != 0

theorem isMet_iff {term : Term} : term.isMet env = true ↔ term.eval env ≠ 0 := bne_iff_ne

theorem isMet_of_truth {term : Term} {truth : Bool} (same : term.eval env = Word.ofBool truth) :
    term.isMet env = truth := by
  rw [isMet, same]
  cases truth <;> rfl

@[simp] theorem isMet_logicalNot (t : Term) :
    (unary .logicalNot t).isMet env = !t.isMet env := by
  rw [isMet_of_truth rfl, isMet, bne, Bool.not_not]

@[simp] theorem isMet_logicalAnd (s t : Term) :
    (binary .logicalAnd s t).isMet env = (s.isMet env && t.isMet env) := isMet_of_truth rfl

@[simp] theorem isMet_logicalOr (s t : Term) :
    (binary .logicalOr s t).isMet env = (s.isMet env || t.isMet env) := isMet_of_truth rfl

@[simp] theorem isMet_eq_zero (t : Term) : (binary .eq t (word 0#64)).isMet env = !t.isMet env :=
  (isMet_of_truth rfl).trans (Bool.not_not _).symm

@[simp] theorem isMet_ne_zero (t : Term) : (binary .ne t (word 0#64)).isMet env = t.isMet env :=
  isMet_of_truth rfl

theorem isMet_one_sub {t : Term} (truth : t.isTruth = true) :
    (binary .plus (word 1#64) (unary .neg t)).isMet env = !t.isMet env := by
  obtain ⟨value, same⟩ := eval_of_isTruth env truth
  have whole : (binary .plus (word 1#64) (unary .neg t)).eval env = 1 + -t.eval env := rfl
  rw [isMet, isMet, whole, same]
  cases value <;> rfl

theorem isMet_of_mem_conjuncts {wanted : Bool} {term : Term} (holds : term.isMet env = wanted) :
    ∀ t ∈ term.conjuncts wanted, t.isMet env = true := by
  fun_induction conjuncts wanted term with
  | case1 lhs rhs left right =>
      rw [isMet_logicalAnd, Bool.and_eq_true] at holds
      exact List.forall_mem_append.mpr ⟨left holds.1, right holds.2⟩
  | case2 lhs rhs left right =>
      rw [isMet_logicalOr, Bool.or_eq_false_iff] at holds
      exact List.forall_mem_append.mpr ⟨left holds.1, right holds.2⟩
  | case3 wanted operand ih => exact ih (by rw [← holds, isMet_logicalNot, Bool.not_not])
  | case4 wanted lhs ih => exact ih (by rw [← holds, isMet_eq_zero, Bool.not_not])
  | case5 wanted lhs ih => exact ih (by rw [← holds, isMet_ne_zero])
  | case6 wanted operand truth ih =>
      exact ih (by rw [← holds, isMet_one_sub truth, Bool.not_not])
  | case7 => exact List.forall_mem_singleton.mpr holds
  | case8 wanted operand _ unwanted =>
      rw [Bool.not_eq_true] at unwanted
      exact List.forall_mem_singleton.mpr (by rw [isMet_logicalNot, holds, unwanted, Bool.not_false])
  | case9 => exact List.forall_mem_singleton.mpr holds
  | case10 =>
      exact List.forall_mem_singleton.mpr (by rw [isMet_logicalNot, holds, Bool.not_false])

theorem eval_replace {name : String} {value : Term} (same : env name = value.eval env) (term : Term) :
    (term.replace name value).eval env = term.eval env := by
  induction term with
  | word w => rfl
  | symbol other =>
      rw [replace]
      split
      · rename_i found
        rw [found, ← same]
        rfl
      · rfl
  | unary op operand ih => exact congrArg op.apply ih
  | binary op lhs rhs left right => rw [replace, eval, left, right, eval]

end Term

namespace Replacement

variable {env : String → Word} {r : Replacement}

def Holds (env : String → Word) (r : Replacement) : Prop := env r.name = r.value.eval env

theorem holds_of_ofRoot? {p : Polynomial} (found : ofRoot? p = some r)
    (root : Polynomial.eval env p = 0) : Holds env r := by
  obtain ⟨⟨m, c⟩, _, found⟩ := List.exists_of_findSome?_eq_some found
  dsimp only at found
  split at found
  · rename_i name _
    split at found
    · rename_i solved
      cases found
      simp only [Bool.and_eq_true, decide_eq_true_eq] at solved
      obtain ⟨⟨inverts, _⟩, _⟩ := solved
      have factor : Monomial.eval env [.symbol name] = env name := Word.mul_one _
      have value : env name = -Polynomial.inverse c * (-c * env name) := by grind
      rw [Holds, Polynomial.eval_toTerm, Polynomial.eval_scale, Polynomial.eval_insert, root, factor,
        Monomial.eval_nil, Word.mul_one]
      grind
    · cases found
  · cases found

theorem holds_of_ofEquation? {term : Term} (found : ofEquation? term = some r)
    (holds : term.isMet env = true) : Holds env r := by
  unfold ofEquation? at found
  split at found
  · rename_i lhs rhs
    have same : lhs.eval env = rhs.eval env :=
      of_decide_eq_true ((Term.isMet_of_truth rfl).symm.trans holds)
    refine holds_of_ofRoot? found ?_
    rw [Polynomial.eval_sub, Polynomial.eval_ofTerm, Polynomial.eval_ofTerm, same]
    exact BitVec.sub_self _
  · rename_i operand
    have same : operand.eval env = 0 :=
      of_decide_eq_true ((Term.isMet_of_truth rfl).symm.trans holds)
    exact holds_of_ofRoot? found ((Polynomial.eval_ofTerm env operand).trans same)
  · cases found

theorem holds_upTo {name : String} {bound : Word} (small : (env name).toNat ≤ bound.toNat) :
    Holds env (upTo name bound) := by
  have width : bound.toNat.log2 + 1 ≤ 64 := by
    by_cases null : bound.toNat = 0
    · rw [null]
      decide
    · exact (Nat.log2_lt null).mpr bound.isLt
  apply BitVec.eq_of_toNat_eq
  have value : ((upTo name bound).value.eval env).toNat =
      (env name).toNat % 2 ^ (bound.toNat.log2 + 1) := Word.toNat_and_mask (env name) width
  rw [value]
  exact (Nat.mod_eq_of_lt (Nat.lt_of_le_of_lt small Nat.lt_log2_self)).symm

theorem holds_of_ofBound? {term : Term} (found : ofBound? term = some r)
    (holds : term.isMet env = true) : Holds env r := by
  unfold ofBound? at found
  split at found
  · rename_i name c
    cases found
    have below : (env name).ult c = true := (Term.isMet_of_truth rfl).symm.trans holds
    have less : (env name).toNat < c.toNat := of_decide_eq_true below
    have nonzero : c ≠ 0 := by
      rintro rfl
      exact Nat.not_lt_zero _ less
    refine holds_upTo ?_
    rw [Word.toNat_sub_one nonzero]
    exact Nat.le_sub_one_of_lt less
  · rename_i c name
    cases found
    rw [Term.isMet_logicalNot, Term.isMet_of_truth rfl] at holds
    exact holds_upTo (Nat.le_of_not_lt (of_decide_eq_false ((Bool.not_eq_true' _).mp holds)))
  · rename_i name k
    split at found
    · rename_i inside
      cases found
      have zero : (env name).shiftRight k = 0 :=
        of_decide_eq_true ((Term.isMet_of_truth rfl).symm.trans holds)
      have quotient : (env name).toNat / 2 ^ k.toNat = 0 := by
        rw [← Word.toNat_shiftRight, zero]
        rfl
      have less := (Nat.div_eq_zero_iff_lt (Nat.two_pow_pos _)).mp quotient
      refine holds_upTo ?_
      rw [Word.toNat_sub_one (Word.twoPow_ne_zero inside), Word.toNat_twoPow inside]
      exact Nat.le_sub_one_of_lt less
    · cases found
  · cases found

end Replacement

namespace Assumptions

variable {env : String → Word} {a : Assumptions} {simplify : Term → Term}

def IsMet (env : String → Word) (a : Assumptions) : Prop := ∀ t ∈ a.terms, t.isMet env = true

theorem IsMet.apply {r : Replacement} (met : a.IsMet env)
    (keeps : ∀ t : Term, (simplify t).eval env = t.eval env) (holds : r.Holds env) :
    (a.apply simplify r).IsMet env := by
  intro t member
  obtain ⟨term, within, member⟩ := List.mem_flatMap.mp member
  refine Term.isMet_of_mem_conjuncts ?_ t member
  rw [Term.isMet, keeps, Term.eval_replace holds]
  exact met term within

theorem IsMet.solve (met : a.IsMet env) (keeps : ∀ t : Term, (simplify t).eval env = t.eval env)
    (count : Nat) : (a.solve simplify count).IsMet env := by
  induction count generalizing a with
  | zero => exact met
  | succ count ih =>
      rw [Assumptions.solve]
      split
      · rename_i r found
        obtain ⟨term, member, found⟩ := List.exists_of_findSome?_eq_some found
        exact ih (met.apply keeps (Replacement.holds_of_ofEquation? found (met term member)))
      · exact met

theorem IsMet.foldl_apply (met : a.IsMet env)
    (keeps : ∀ t : Term, (simplify t).eval env = t.eval env) {replacements : List Replacement}
    (hold : ∀ r ∈ replacements, r.Holds env) :
    (replacements.foldl (Assumptions.apply simplify) a).IsMet env := by
  induction replacements generalizing a with
  | nil => exact met
  | cons r rest ih =>
      exact ih (met.apply keeps (hold r List.mem_cons_self)) fun r member =>
        hold r (List.mem_cons_of_mem _ member)

/-- Where a term is zero, the assumptions under which it is are met. -/
theorem isMet_ofZero {term : Term} (zero : term.eval env = 0)
    (keeps : ∀ t : Term, (simplify t).eval env = t.eval env) :
    (ofZero simplify term).IsMet env := by
  have start : (⟨term.conjuncts false, []⟩ : Assumptions).IsMet env :=
    Term.isMet_of_mem_conjuncts (by rw [Term.isMet, zero]; rfl)
  have solved := start.solve keeps term.names.length
  refine solved.foldl_apply keeps fun r member => ?_
  obtain ⟨bound, within, found⟩ := List.mem_filterMap.mp member
  exact Replacement.holds_of_ofBound? found (solved bound within)

end Assumptions
end CExpr
