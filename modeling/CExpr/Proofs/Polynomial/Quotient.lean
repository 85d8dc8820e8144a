import CExpr.Proofs.Polynomial.Bitwise

/-!
Quotients and remainders of polynomials. What a polynomial hides of a division by a constant is found
again: a remainder is the dividend less a multiple of the quotient, and quotients of quotients are
quotients by the product.
-/
namespace CExpr

namespace Polynomial

variable {env : String → Word} {p q : Polynomial} {t : Term}

theorem eval_shiftBy (amount t : Term) :
    (shiftBy amount t).eval env = (t.eval env).shiftRight (amount.eval env) := by
  fun_induction shiftBy amount t with
  | case1 t other _ ih =>
      have step : (Term.binary .shr (shiftBy amount t) other).eval env =
          ((shiftBy amount t).eval env).shiftRight (other.eval env) := rfl
      rw [step, ih, Word.shiftRight_shiftRight_comm]
      rfl
  | case2 | case3 => rfl

theorem exponent?_eq_some {c : Word} {k : Nat} (found : exponent? c = some k) :
    k < 64 ∧ c = BitVec.twoPow 64 k := by
  obtain ⟨same, inside, _⟩ := List.find?_range_eq_some.mp found
  exact ⟨List.mem_range.mp inside, of_decide_eq_true same⟩

theorem toNat_quotientOf (t : Term) {d : Nat} (nonzero : 0 < d) :
    ((quotientOf t d).eval env).toNat = (t.eval env).toNat / d := by
  unfold quotientOf
  split
  · rename_i large
    exact (Nat.div_eq_of_lt (Nat.lt_of_lt_of_le (t.eval env).isLt large)).symm
  · rename_i small
    have same : (BitVec.ofNat 64 d).toNat = d := Nat.mod_eq_of_lt (Nat.lt_of_not_le small)
    split
    · rename_i k found
      obtain ⟨inside, power⟩ := exponent?_eq_some found
      have amount : (BitVec.ofNat 64 k).toNat = k :=
        Nat.mod_eq_of_lt (Nat.lt_trans inside (by decide))
      rw [eval_shiftBy, Word.toNat_shiftRight, Term.eval, amount, ← Word.toNat_twoPow inside,
        ← power, same]
    · have nonzero : BitVec.ofNat 64 d ≠ 0 := by
        intro null
        rw [null] at same
        exact Nat.ne_of_gt nonzero same.symm
      exact (Word.toNat_divide _ nonzero).trans (by rw [same])

theorem toNat_of_dividend? {u : Term} {c : Nat} (found : dividend? t = some (u, c)) :
    0 < c ∧ (t.eval env).toNat = (u.eval env).toNat / c := by
  unfold dividend? at found
  split at found
  · rename_i word
    split at found
    · cases found
    · rename_i nonzero
      cases found
      exact ⟨Word.toNat_pos nonzero, Word.toNat_divide _ nonzero⟩
  · split at found
    · cases found
      exact ⟨Nat.two_pow_pos _, Word.toNat_shiftRight _ _⟩
    · cases found
  · cases found

/-- A polynomial that is a remainder, and the quotient that belongs to it. -/
theorem toNat_of_remainder? {u : Polynomial} {m : Monomial} {d : Nat}
    (found : remainder? p = some (u, m, d)) :
    0 < d ∧ (Monomial.eval env m).toNat = (eval env u).toNat / d ∧
      (eval env p).toNat = (eval env u).toNat % d := by
  obtain ⟨⟨n, c⟩, _, found⟩ := List.exists_of_findSome?_eq_some found
  dsimp only at found
  split at found
  · rename_i t _
    obtain ⟨⟨dividend, d⟩, divides, found⟩ := Option.bind_eq_some_iff.mp found
    dsimp only at found
    split at found
    · rename_i fits
      cases found
      simp only [Bool.and_eq_true, decide_eq_true_eq] at fits
      obtain ⟨coefficient, rfl⟩ := fits
      obtain ⟨nonzero, quotient⟩ := @toNat_of_dividend? env _ _ _ divides
      rw [eval_toTerm] at quotient
      have factor : (Monomial.eval env [t]).toNat = (eval env (insert [t] (-c) p)).toNat / d := by
        rw [← quotient, Monomial.eval_cons, Monomial.eval_nil, Word.mul_one]
      refine ⟨nonzero, factor, ?_⟩
      have covered : d * ((eval env (insert [t] (-c) p)).toNat / d) ≤
          (eval env (insert [t] (-c) p)).toNat := Nat.mul_div_le _ _
      have product : (BitVec.ofNat 64 d * Monomial.eval env [t]).toNat =
          d * ((eval env (insert [t] (-c) p)).toNat / d) := by
        rw [← factor] at covered ⊢
        exact Word.toNat_ofNat_mul (Nat.lt_of_le_of_lt covered (eval env (insert [t] (-c) p)).isLt)
      have difference : eval env p =
          eval env (insert [t] (-c) p) - BitVec.ofNat 64 d * Monomial.eval env [t] := by
        rw [eval_insert, coefficient]
        grind
      rw [← product] at covered
      rw [difference, BitVec.toNat_sub_of_le covered, product, Nat.mod_eq_sub]
    · cases found
  · cases found

theorem eval_ofAtom (t : Term) : eval env (ofAtom t) = t.eval env := by
  unfold ofAtom
  split
  · exact eval_constant env _
  · exact eval_single env _

/-- Of a dividend with a remainder by a multiple, the remainder can be divided on its own. -/
theorem div_eq_add_mod_div {x c d : Nat} (nonzero : 0 < d) (divides : c % d = 0) :
    x / d = c / d * (x / c) + x % c / d := by
  obtain ⟨k, rfl⟩ := Nat.dvd_of_mod_eq_zero divides
  have split : x = d * (k * (x / (d * k))) + x % (d * k) := by
    rw [← Nat.mul_assoc]
    exact (Nat.div_add_mod x (d * k)).symm
  rw [Nat.mul_div_cancel_left k nonzero]
  refine (congrArg (· / d) split).trans ?_
  exact Nat.mul_add_div nonzero _ _

theorem toNat_plainQuotient (p : Polynomial) {d : Nat} (nonzero : 0 < d) :
    (eval env (plainQuotient p d)).toNat = (eval env p).toNat / d := by
  unfold plainQuotient
  split
  · rename_i t
    have atom : eval env [([t], 1)] = t.eval env := eval_single env t
    refine Eq.trans ?_ (congrArg (fun value : Word => value.toNat / d) atom.symm)
    split
    · rename_i dividend c found
      obtain ⟨positive, quotient⟩ := @toNat_of_dividend? env _ _ _ found
      rw [eval_ofAtom, toNat_quotientOf _ (Nat.mul_pos positive nonzero), quotient,
        Nat.div_div_eq_div_mul]
    · rw [eval_ofAtom, toNat_quotientOf _ nonzero]
  · rw [eval_ofAtom, toNat_quotientOf _ nonzero, eval_toTerm]

theorem toNat_quotientBy (p : Polynomial) {d : Nat} (nonzero : 0 < d) :
    (eval env (quotientBy p d)).toNat = (eval env p).toNat / d := by
  have plain : ∀ p, (eval env (plainQuotient p d)).toNat = (eval env p).toNat / d :=
    fun p => toNat_plainQuotient p nonzero
  unfold quotientBy
  split
  · rename_i one
    rw [one, Nat.div_one]
  · split
    · rename_i dividend m c found
      split
      · rename_i divides
        obtain ⟨_, quotient, remainder⟩ := @toNat_of_remainder? env _ _ _ _ found
        have whole : (eval env dividend).toNat / d = c / d * (Monomial.eval env m).toNat +
            (eval env p).toNat / d := by
          rw [quotient, remainder]
          exact div_eq_add_mod_div nonzero divides
        have part : c / d * (Monomial.eval env m).toNat ≤ (eval env dividend).toNat :=
          Nat.le_trans (whole ▸ Nat.le_add_right _ _) (Nat.div_le_self _ d)
        have small := Nat.lt_of_le_of_lt part (eval env dividend).isLt
        have product := Word.toNat_ofNat_mul small
        rw [eval_sub, eval_scale, eval_constant, Word.mul_one, BitVec.toNat_sub_of_le, plain, whole,
          product]
        · exact Nat.add_sub_cancel_left _ _
        · rw [BitVec.le_def, plain, product, whole]
          exact Nat.le_add_right _ _
      · exact plain p
    · exact plain p

theorem eval_shiftedRight (p q : Polynomial) :
    eval env (shiftedRight p q) = (eval env p).shiftRight (eval env q) := by
  unfold shiftedRight
  split
  · rename_i c k left right
    rw [eval_constant, eval_of_constant? env left, eval_of_constant? env right]
  · rename_i k _ right
    rw [eval_of_constant? env right]
    split
    · apply BitVec.eq_of_toNat_eq
      rw [toNat_quotientBy p (Nat.two_pow_pos _), Word.toNat_shiftRight]
    · rename_i large
      exact (Word.shiftRight_of_le (Nat.le_of_not_lt large)).symm
  · split
    · rename_i null
      rw [null, eval_nil, Word.zero_shiftRight]
    · rw [eval_single, eval_shiftBy, eval_toTerm, eval_toTerm]

theorem eval_of_alternative? {c d : Word} (found : alternative? p = some (c, t, d)) :
    ∃ truth, t.eval env = Word.ofBool truth ∧ eval env p = c + d * Word.ofBool truth := by
  unfold alternative? at found
  split at found
  · split at found
    · rename_i truth
      cases found
      obtain ⟨value, same⟩ := Term.eval_of_isTruth env truth
      refine ⟨value, same, ?_⟩
      rw [eval_cons, Monomial.eval_cons, same]
      simp
    · cases found
  · split at found
    · rename_i truth
      cases found
      obtain ⟨value, same⟩ := Term.eval_of_isTruth env truth
      refine ⟨value, same, ?_⟩
      rw [eval_cons, eval_cons, Monomial.eval_cons, same]
      simp
    · cases found
  · cases found

theorem eval_quotientByWord (p : Polynomial) (d : Word) :
    eval env (quotientByWord p d) = (eval env p).divide d := by
  unfold quotientByWord
  split
  · rename_i c left
    rw [eval_constant, eval_of_constant? env left]
  · split
    · rename_i null
      rw [null, eval_constant, Word.divide_zero]
    · rename_i nonzero
      apply BitVec.eq_of_toNat_eq
      rw [toNat_quotientBy p (Word.toNat_pos nonzero), Word.toNat_divide _ nonzero]

theorem eval_quotient (p q : Polynomial) :
    eval env (quotient p q) = (eval env p).divide (eval env q) := by
  unfold quotient
  split
  · rename_i d right
    rw [eval_quotientByWord, eval_of_constant? env right]
  · split
    · rename_i c t d found
      obtain ⟨truth, same, whole⟩ := @eval_of_alternative? env _ _ _ _ found
      rw [eval_add, eval_mul, eval_sub, eval_single, eval_quotientByWord, eval_quotientByWord, same,
        whole]
      cases truth
      · simp [Word.ofBool]
      · simp only [Word.ofBool, if_true]
        grind
    · split
      · rename_i amount _ _
        have shifted : eval env (single (.binary .shl (.word 1) amount)) =
            (1 : Word).shiftLeft (amount.eval env) := eval_single env _
        refine Eq.trans ?_ (congrArg (eval env p).divide shifted.symm)
        rw [Word.divide_one_shiftLeft, eval_sub, eval_shiftedRight, eval_isZero, eval_single,
          eval_single]
        rfl
      · split
        · rename_i same
          rw [same, eval_sub, eval_constant, eval_scale, eval_isZero, Word.divide_self,
            Monomial.eval_nil, Word.mul_one]
        · exact eval_residue .div p q

theorem eval_remainder (p q : Polynomial) :
    eval env (remainder p q) = (eval env p).remainder (eval env q) := by
  unfold remainder
  split
  · rename_i d k found
    obtain ⟨c, right, same⟩ := Option.map_eq_some_iff.mp found
    obtain ⟨rfl, power⟩ := Prod.mk.inj same
    obtain ⟨inside, rfl⟩ := exponent?_eq_some power
    rw [eval_residue, eval_constant, eval_of_constant? env right, Word.remainder_twoPow _ inside]
    rfl
  · split
    · rename_i null
      rw [null]
      rfl
    · rw [eval_sub, eval_mul, eval_quotient, Word.remainder_eq]

end Polynomial
end CExpr
