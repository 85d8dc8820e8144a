import CExpr.Proofs.Polynomial.Quotient

/-!
Normal forms keep the value: whatever the variables are, a term and its normal form are the same
word. A product is worked out factor by factor, and it does not matter which sums are left as they
are because it would be too long.
-/
namespace CExpr

namespace Polynomial

variable {env : String → Word} {p q : Polynomial}

theorem eval_ofUnary (op : UnOp) (p : Polynomial) :
    eval env (ofUnary op p) = op.apply (eval env p) := by
  cases op with
  | plus => rfl
  | neg => exact eval_neg env p
  | bitNot =>
      rw [ofUnary, eval_sub, eval_constant]
      simp only [UnOp.apply, BitVec.not_eq_neg_add]
      grind
  | logicalNot => exact eval_equal p []

theorem eval_ofBinary (op : BinOp) (p q : Polynomial) :
    eval env (ofBinary op p q) = op.apply (eval env p) (eval env q) := by
  cases op with
  | plus => exact eval_add env p q
  | minus => exact eval_sub env p q
  | mult => exact eval_mul env p q
  | div => exact eval_quotient p q
  | mod => exact eval_remainder p q
  | shl =>
      rw [ofBinary, eval_mul, eval_residue, eval_constant]
      exact (Word.shiftLeft_eq_mul _ _).symm
  | shr => exact eval_shiftedRight p q
  | eq => exact eval_equal p q
  | ne =>
      rw [ofBinary, eval_complement, eval_equal, Word.one_sub_ofBool]
      rfl
  | lt => exact eval_less p q
  | le =>
      rw [ofBinary, eval_complement, eval_less, Word.one_sub_ofBool]
      exact congrArg Word.ofBool (BitVec.ule_eq_not_ult _ _).symm
  | gt => exact eval_less q p
  | ge =>
      rw [ofBinary, eval_complement, eval_less, Word.one_sub_ofBool]
      exact congrArg Word.ofBool (BitVec.ule_eq_not_ult _ _).symm
  | _ => exact eval_residue _ p q

def evalAll (env : String → Word) (factors : List Polynomial) : Word :=
  factors.foldr (fun p value => eval env p * value) 1

theorem evalAll_append (first second : List Polynomial) :
    evalAll env (first ++ second) = evalAll env first * evalAll env second := by
  induction first with
  | nil => simp [evalAll]
  | cons p rest ih =>
      have step : ∀ factors, evalAll env (p :: factors) = eval env p * evalAll env factors :=
        fun _ => rfl
      rw [List.cons_append, step, step, ih]
      grind

theorem eval_of_expanded? {factors : List Polynomial} (found : expanded? factors = some p) :
    eval env p = evalAll env factors := by
  induction factors generalizing p with
  | nil =>
      cases found
      exact eval_constant env 1
  | cons first rest ih =>
      obtain ⟨product, before, found⟩ := Option.bind_eq_some_iff.mp found
      split at found
      · cases found
        rw [eval_mul, ih before]
        rfl
      · cases found

theorem eval_product (factors : List Polynomial) :
    eval env (product factors) = evalAll env factors := by
  refine eval_getD (fun p => eval_of_expanded?) ?_
  induction factors with
  | nil => exact eval_constant env 1
  | cons p rest ih =>
      rw [List.map_cons, List.foldr_cons, eval_mul, ih]
      split
      · rfl
      · rw [eval_single, eval_toTerm]
        rfl

theorem evalAll_factors (env : String → Word) (term : Term) :
    evalAll env (factors term) = term.eval env := by
  have alone : ∀ p, evalAll env [p] = eval env p := fun p => Word.mul_one _
  induction term with
  | word value => exact (alone _).trans (eval_constant env value)
  | symbol name => exact (alone _).trans (eval_single env _)
  | unary op operand ih =>
      rw [factors, alone, eval_ofUnary, eval_product, ih]
      rfl
  | binary op lhs rhs left right =>
      rw [factors]
      split
      · rename_i product
        rw [evalAll_append, left, right, product]
        rfl
      · rw [alone, eval_ofBinary, eval_product, eval_product, left, right]
        rfl

theorem eval_ofTerm (env : String → Word) (term : Term) : eval env (ofTerm term) = term.eval env := by
  rw [ofTerm, eval_product, evalAll_factors]

end Polynomial

/-- A term and its normal form have the same value. -/
theorem Term.eval_normal (env : String → Word) (term : Term) : term.normal.eval env = term.eval env := by
  rw [normal, Polynomial.eval_toTerm, Polynomial.eval_ofTerm]

end CExpr
