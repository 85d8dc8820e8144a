import CExpr.Proofs.Term.Word
import CExpr.Term.Polynomial

/-!
The values of polynomials. Sums and products of polynomials have the sums and products of their
values, whatever order the terms come in, and the term that a polynomial is written as has the value
of the polynomial.
-/
namespace CExpr

namespace Monomial

variable (env : String → Word)

@[simp] theorem eval_nil : eval env [] = 1 := rfl

@[simp] theorem eval_cons (t : Term) (m : Monomial) :
    eval env (t :: m) = t.eval env * eval env m := rfl

theorem eval_insert (t : Term) (m : Monomial) :
    eval env (insert t m) = t.eval env * eval env m := by
  induction m with
  | nil => rfl
  | cons first rest ih =>
      rw [insert]
      split
      · rename_i once
        obtain ⟨rfl, truth⟩ : t = first ∧ t.isTruth = true := by simpa using once
        obtain ⟨value, same⟩ := Term.eval_of_isTruth env truth
        have square := Word.ofBool_mul_self value
        rw [eval_cons, same]
        grind
      · split
        · rfl
        · rw [eval_cons, eval_cons, ih]
          grind

theorem eval_mul (m n : Monomial) : eval env (mul m n) = eval env m * eval env n := by
  induction m with
  | nil => simp [mul]
  | cons t rest ih =>
      have step : mul (t :: rest) n = insert t (mul rest n) := rfl
      rw [step, eval_insert, ih, eval_cons]
      grind

theorem eval_times (s t : Term) : (times s t).eval env = s.eval env * t.eval env := by
  have shifted : ∀ amount t : Term, (Term.binary .shl t amount).eval env =
      t.eval env * (Term.binary .shl (.word 1) amount).eval env :=
    fun amount t => Word.shiftLeft_eq_mul (t.eval env) (amount.eval env)
  unfold times
  split
  · exact (shifted _ _).trans (BitVec.mul_comm _ _)
  · exact shifted _ _
  · rfl

theorem eval_foldl_times (t : Term) (m : Monomial) :
    (m.foldl times t).eval env = t.eval env * eval env m := by
  induction m generalizing t with
  | nil => simp
  | cons first rest ih =>
      rw [List.foldl_cons, ih, eval_times, eval_cons]
      grind

@[simp] theorem eval_toTerm (m : Monomial) : m.toTerm.eval env = eval env m := by
  cases m with
  | nil => rfl
  | cons t rest => exact eval_foldl_times env t rest

end Monomial

namespace Polynomial

variable (env : String → Word)

@[simp] theorem eval_nil : eval env [] = 0 := rfl

@[simp] theorem eval_cons (m : Monomial) (c : Word) (p : Polynomial) :
    eval env ((m, c) :: p) = c * Monomial.eval env m + eval env p := rfl

theorem eval_append (p q : Polynomial) : eval env (p ++ q) = eval env p + eval env q := by
  induction p with
  | nil => simp
  | cons entry rest ih =>
      obtain ⟨m, c⟩ := entry
      rw [List.cons_append, eval_cons, eval_cons, ih]
      grind

@[simp] theorem eval_insert (m : Monomial) (c : Word) (p : Polynomial) :
    eval env (insert m c p) = c * Monomial.eval env m + eval env p := by
  induction p with
  | nil =>
      rw [insert]
      split
      · rename_i null
        simp [null]
      · rfl
  | cons entry rest ih =>
      obtain ⟨first, d⟩ := entry
      rw [insert]
      split
      · rename_i same
        subst same
        split
        · rename_i cancels
          rw [eval_cons]
          grind
        · rw [eval_cons, eval_cons]
          grind
      · split
        · rename_i null
          simp [null]
        · split
          · rfl
          · rw [eval_cons, eval_cons, ih]
            grind

@[simp] theorem eval_constant (c : Word) : eval env (constant c) = c := by
  simp [constant]

@[simp] theorem eval_single (t : Term) : eval env (single t) = t.eval env := by
  simp [single]

@[simp] theorem eval_add (p q : Polynomial) : eval env (add p q) = eval env p + eval env q := by
  induction p with
  | nil => simp [add]
  | cons entry rest ih =>
      obtain ⟨m, c⟩ := entry
      have step : add ((m, c) :: rest) q = insert m c (add rest q) := rfl
      rw [step, eval_insert, ih, eval_cons]
      grind

@[simp] theorem eval_scale (m : Monomial) (c : Word) (p : Polynomial) :
    eval env (scale m c p) = c * Monomial.eval env m * eval env p := by
  induction p with
  | nil => simp [scale]
  | cons entry rest ih =>
      obtain ⟨n, d⟩ := entry
      have step : scale m c ((n, d) :: rest) = insert (m.mul n) (c * d) (scale m c rest) := rfl
      rw [step, eval_insert, Monomial.eval_mul, ih, eval_cons]
      grind

@[simp] theorem eval_mul (p q : Polynomial) : eval env (mul p q) = eval env p * eval env q := by
  induction p with
  | nil => simp [mul]
  | cons entry rest ih =>
      obtain ⟨m, c⟩ := entry
      have step : mul ((m, c) :: rest) q = add (scale m c q) (mul rest q) := rfl
      rw [step, eval_add, eval_scale, ih, eval_cons]
      grind

@[simp] theorem eval_neg (p : Polynomial) : eval env (neg p) = -eval env p := by
  rw [neg, eval_scale, Monomial.eval_nil]
  grind

@[simp] theorem eval_sub (p q : Polynomial) : eval env (sub p q) = eval env p - eval env q := by
  rw [sub, eval_add, eval_neg]
  grind

theorem eval_of_constant? {p : Polynomial} {c : Word} (found : p.constant? = some c) :
    eval env p = c := by
  unfold constant? at found
  split at found
  · cases found
    rfl
  · cases found
    simp
  · cases found

@[simp] theorem eval_multiple (m : Monomial) (c : Word) :
    (multiple m c).eval env = c * Monomial.eval env m := by
  unfold multiple
  split
  · rename_i empty
    rw [List.isEmpty_iff.mp empty, Monomial.eval_nil]
    simp [Term.eval]
  · split
    · rename_i one
      rw [one, Monomial.eval_toTerm]
      grind
    · split
      · rename_i minus
        simp only [Term.eval, UnOp.apply, Monomial.eval_toTerm, minus]
        grind
      · split
        · simp only [Term.eval, UnOp.apply, BinOp.apply, Monomial.eval_toTerm]
          grind
        · simp only [Term.eval, BinOp.apply, Monomial.eval_toTerm]

@[simp] theorem eval_toTerm (p : Polynomial) : p.toTerm.eval env = eval env p := by
  fun_induction toTerm p with
  | case1 => rfl
  | case2 m c => simp
  | case3 m c rest _ ih => simp [Term.eval, BinOp.apply, ih]

end Polynomial
end CExpr
