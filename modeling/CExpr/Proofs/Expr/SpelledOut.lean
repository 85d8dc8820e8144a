import CExpr.Proofs.Expr.Equivalence
import CExpr.Proofs.Reader.RoundTrip

/-!
Constants spelled out. In a text a negative constant is a sign and its magnitude, and the special
values of doubles are names. A tree that has these in the place of its constants is written with the
same text, each of its leaves is one token, and over words it means what the tree meant.
-/
namespace CExpr.Expr
open Text

def negatedIf (negative : Bool) (magnitude : Expr) : Expr :=
  if negative then unary .neg magnitude else magnitude

/-- The constants of a tree as a text has them. -/
def spelledOut : Expr → Expr
  | integer (.ofNat magnitude) => integer (.ofNat magnitude)
  | integer (.negSucc predecessor) => negatedIf true (integer (.ofNat (predecessor + 1)))
  | double (.finite negative units fits) => negatedIf negative (double (.finite false units fits))
  | double (.infinite negative) => negatedIf negative (var "inf")
  | double .nan => var "nan"
  | var name => var name
  | unary op operand => unary op operand.spelledOut
  | binary op lhs rhs => binary op lhs.spelledOut rhs.spelledOut
  | parens inner => parens inner.spelledOut

/-! The text does not change: no magnitude begins with a sign, so none is set off by a space. -/
section Chars

theorem digits_unsigned {digits : List Char} (ascii : AsciiDigits digits) (nonempty : digits ≠ [])
    (rest : List Char) : (digits ++ rest).head? ≠ some '-' := by
  cases digits with
  | nil => exact absurd rfl nonempty
  | cons first more =>
      intro sign
      cases sign
      exact absurd (ascii '-' List.mem_cons_self) (by decide)

theorem integer_unsigned (magnitude : Nat) :
    (integer (.ofNat magnitude)).chars.head? ≠ some '-' := by
  rw [chars, integerChars, ← List.append_nil (digitsOf magnitude)]
  exact digits_unsigned (digitsOf_ascii _) (digitsOf_ne_nil _) []

theorem double_unsigned {units : Nat} (fits : Representable units) :
    (double (.finite false units fits)).chars.head? ≠ some '-' := by
  obtain ⟨digits, exponent, form, _⟩ := Double.magnitudeChars_form fits
  rw [chars, Double.chars, if_neg Bool.false_ne_true]
  generalize Double.magnitudeChars units = text at form
  cases form with
  | pointed ascii nonempty _ _ | bare ascii nonempty _ _ => exact digits_unsigned ascii nonempty _

theorem chars_negatedIf (negative : Bool) (magnitude : Expr)
    (unsigned : magnitude.chars.head? ≠ some '-') : (negatedIf negative magnitude).chars =
      if negative then '-' :: magnitude.chars else magnitude.chars := by
  cases negative with
  | false => rfl
  | true => exact if_neg fun apart => unsigned apart.2

theorem chars_spelledOut (e : Expr) : e.spelledOut.chars = e.chars := by
  induction e with
  | integer value =>
      cases value with
      | ofNat magnitude => rfl
      | negSucc predecessor =>
          rw [spelledOut, chars_negatedIf true _ (integer_unsigned _), if_pos rfl, chars, chars,
            integerChars, integerChars]
  | double value =>
      cases value with
      | finite negative units fits =>
          rw [spelledOut, chars_negatedIf negative _ (double_unsigned fits), chars, chars,
            Double.chars, Double.chars, if_neg Bool.false_ne_true]
      | infinite negative =>
          have unsigned : (var "inf").chars.head? ≠ some '-' := by decide
          rw [spelledOut, chars_negatedIf negative _ unsigned]
          exact (chars_infinite negative).symm
      | nan => rfl
  | var name => rfl
  | unary op operand ih => simp only [spelledOut, chars, ih]
  | binary op lhs rhs left right => simp only [spelledOut, chars, left, right]
  | parens inner ih => simp only [spelledOut, chars, ih]

end Chars

/-! The leaves are single tokens, and no operand binds more loosely than it did. -/
section Leaves

theorem everyLeaf_negatedIf {test : Expr → Prop} (negative : Bool) {magnitude : Expr}
    (passes : magnitude.EveryLeaf test) : (negatedIf negative magnitude).EveryLeaf test := by
  cases negative <;> exact passes

theorem plain_spelledOut {e : Expr} (names : e.EveryLeaf HasReadableName) :
    e.spelledOut.EveryLeaf IsPlain := by
  induction e with
  | integer value =>
      cases value with
      | ofNat magnitude => exact Int.natCast_nonneg magnitude
      | negSucc predecessor => exact everyLeaf_negatedIf true (Int.natCast_nonneg _)
  | double value =>
      cases value with
      | finite negative units fits => exact everyLeaf_negatedIf negative ⟨units, fits, rfl⟩
      | infinite negative =>
          have named : isIdentifier "inf".toList = true := by decide
          exact everyLeaf_negatedIf negative named
      | nan => exact (by decide : isIdentifier "nan".toList = true)
  | var name => exact names
  | unary op operand ih | parens operand ih => exact ih names
  | binary op lhs rhs left right => exact ⟨left names.1, right names.2⟩

theorem short_spelledOut {e : Expr} (short : e.EveryLeaf IsShort) :
    e.spelledOut.EveryLeaf IsShort := by
  induction e with
  | integer value => cases value <;> exact short
  | double value =>
      cases value with
      | finite negative units fits | infinite negative => cases negative <;> trivial
      | nan => trivial
  | var name => trivial
  | unary op operand ih | parens operand ih => exact ih short
  | binary op lhs rhs left right => exact ⟨left short.1, right short.2⟩

theorem precedence_negatedIf_le (negative : Bool) {magnitude : Expr}
    (leaf : magnitude.precedence = 0) : (negatedIf negative magnitude).precedence ≤ 2 := by
  cases negative with
  | false => exact leaf ▸ Nat.zero_le 2
  | true => exact Nat.le_refl 2

/-- A constant may have become a sign before its magnitude, which every operator takes whole. -/
theorem precedence_spelledOut_le (e : Expr) :
    e.spelledOut.precedence ≤ max e.precedence UnOp.precedence := by
  cases e with
  | integer value =>
      cases value with
      | ofNat magnitude => exact Nat.zero_le _
      | negSucc predecessor => exact precedence_negatedIf_le true rfl
  | double value =>
      cases value with
      | finite negative units fits | infinite negative =>
          exact precedence_negatedIf_le negative rfl
      | nan => exact Nat.zero_le _
  | var name | parens inner => exact Nat.zero_le _
  | unary op operand | binary op lhs rhs => exact Nat.le_max_left _ _

theorem precedenceCorrect_spelledOut {e : Expr} (correct : e.PrecedenceCorrect) :
    e.spelledOut.PrecedenceCorrect := by
  induction e with
  | integer value =>
      cases value with
      | ofNat magnitude => trivial
      | negSucc predecessor => exact ⟨Nat.zero_le _, trivial⟩
  | double value =>
      cases value with
      | finite negative units fits | infinite negative =>
          cases negative with
          | false => trivial
          | true => exact ⟨Nat.zero_le _, trivial⟩
      | nan => trivial
  | var name => trivial
  | unary op operand ih =>
      obtain ⟨fits, grouped⟩ := correct
      have tight := operand.precedence_spelledOut_le
      exact ⟨by omega, ih grouped⟩
  | binary op lhs rhs left right =>
      obtain ⟨leftFits, rightFits, leftGrouped, rightGrouped⟩ := correct
      have loose : UnOp.precedence < op.precedence := op.two_lt_precedence
      have tightLeft := lhs.precedence_spelledOut_le
      have tightRight := rhs.precedence_spelledOut_le
      exact ⟨by omega, by omega, left leftGrouped, right rightGrouped⟩
  | parens inner ih => exact ih correct

end Leaves

/-! Over words a sign before a magnitude is worth what the negative constant was. -/
section Meaning

theorem word_negSucc (predecessor : Nat) : BitVec.ofInt 64 (.negSucc predecessor) =
    UnOp.neg.apply (BitVec.ofInt 64 (.ofNat (predecessor + 1))) := by
  rw [UnOp.apply, ← BitVec.ofInt_neg]
  rfl

theorem lower_spelledOut {e : Expr} (noDouble : e.hasDouble = false) (symbols : SymbolTable) :
    ∃ term other table, e.lower symbols = (.ok term, table) ∧
      e.spelledOut.lower symbols = (.ok other, table) ∧ ∀ env, other.eval env = term.eval env := by
  induction e generalizing symbols with
  | integer value =>
      cases value with
      | ofNat magnitude => exact ⟨_, _, _, rfl, rfl, fun _ => rfl⟩
      | negSucc predecessor =>
          exact ⟨_, _, _, rfl, rfl, fun _ => (word_negSucc predecessor).symm⟩
  | double value => cases noDouble
  | var name => exact ⟨_, _, _, rfl, rfl, fun _ => rfl⟩
  | unary op operand ih =>
      obtain ⟨term, other, table, lowered, spelled, same⟩ := ih noDouble symbols
      refine ⟨.unary op term, .unary op other, table, ?_, ?_, fun env => ?_⟩
      · rw [lower, lowered]
        rfl
      · rw [spelledOut, lower, spelled]
        rfl
      · rw [Term.eval, Term.eval, same]
  | binary op lhs rhs left right =>
      obtain ⟨noDoubleLeft, noDoubleRight⟩ := Bool.or_eq_false_iff.mp noDouble
      obtain ⟨first, firstOther, between, lowered, spelled, same⟩ := left noDoubleLeft symbols
      obtain ⟨second, secondOther, table, loweredRight, spelledRight, sameRight⟩ :=
        right noDoubleRight between
      refine ⟨.binary op first second, .binary op firstOther secondOther, table, ?_, ?_,
        fun env => ?_⟩
      · simp only [lower, lowered, loweredRight]
        rfl
      · simp only [spelledOut, lower, spelled, spelledRight]
        rfl
      · rw [Term.eval, Term.eval, same, sameRight]
  | parens inner ih => exact ih noDouble symbols

theorem reference_spelledOut {e : Expr} (noDouble : e.hasDouble = false) (bindings : Bindings) :
    e.spelledOut.reference bindings = e.reference bindings := by
  obtain ⟨term, other, table, lowered, spelled, same⟩ := lower_spelledOut noDouble []
  simp only [reference, lowered, spelled, same]

end Meaning

/-- The text of a tree without doubles reads back as a tree that has the same outcome under all
bindings, though signs take the place of negative constants. -/
theorem reference_read_text (e : Expr) (noDouble : e.hasDouble = false)
    (correct : e.PrecedenceCorrect) (names : e.EveryLeaf HasReadableName)
    (short : e.EveryLeaf IsShort) :
    ∃ t, Expr.read e.text.toList none = .ok t ∧
      ∀ bindings, t.reference bindings = e.reference bindings := by
  have plain := plain_spelledOut names
  refine ⟨e.spelledOut, ?_, reference_spelledOut noDouble⟩
  rw [text, String.toList_ofList, ← chars_spelledOut]
  exact read_chars (precedenceCorrect_spelledOut correct) plain (short_spelledOut short)
    (plain.imp fun leaf _ _ => leaf.isListed_none)

/-- `-3 * ~-2` comes back with three signs where there was one. -/
theorem reference_read_text_product :
    let e := binary .mult (integer (-3)) (unary .bitNot (integer (-2)))
    let t := binary .mult (unary .neg (integer 3)) (unary .bitNot (unary .neg (integer 2)))
    (e.hasDouble = false ∧ e.PrecedenceCorrect ∧ e.EveryLeaf HasReadableName ∧
        e.EveryLeaf IsShort) ∧
      Expr.read e.text.toList none = .ok t ∧
      ∀ bindings, t.reference bindings = e.reference bindings := by
  intro e t
  have correct : e.PrecedenceCorrect :=
    ⟨by decide, by decide, trivial, by decide, trivial⟩
  have names : e.EveryLeaf HasReadableName := ⟨trivial, trivial⟩
  have short : e.EveryLeaf IsShort := by
    constructor
    · exact (by decide : (digitsOf 3).length ≤ maxDigits)
    · exact (by decide : (digitsOf 2).length ≤ maxDigits)
  have returned : Expr.read e.text.toList none = .ok t := ok_of_toOption (by decide +kernel)
  obtain ⟨found, again, same⟩ := reference_read_text e rfl correct names short
  cases returned.symm.trans again
  exact ⟨⟨rfl, correct, names, short⟩, returned, same⟩

end CExpr.Expr
