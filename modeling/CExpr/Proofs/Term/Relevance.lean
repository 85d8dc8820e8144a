import CExpr.Proofs.Term.Assumption
import CExpr.Term.Trial

/-!
Which bits matter. The wanted bits of a term are the same for all values of the variables that agree
in the bits that matter for them: bitwise operators work on each rank alone, sums and products on the
ranks up to the wanted ones, and every other operator counts as if all bits of its operands mattered.
-/
namespace CExpr

def Word.Agree (bits a b : Word) : Prop :=
  ∀ i, bits.getLsbD i = true → a.getLsbD i = b.getLsbD i

namespace Word

variable {bits a b c d : Word}

theorem length_le (relevant : bits ≠ 0) : bits.toNat.log2 + 1 ≤ 64 :=
  (Nat.log2_lt (Nat.ne_of_gt (toNat_pos relevant))).mpr bits.isLt

theorem getLsbD_bitsUpTo (relevant : bits ≠ 0) (i : Nat) :
    (Term.bitsUpTo bits).getLsbD i = decide (i < bits.toNat.log2 + 1) := by
  rw [Term.bitsUpTo, if_neg relevant, BitVec.getLsbD_ofNat, Nat.testBit_two_pow_sub_one]
  by_cases inside : i < bits.toNat.log2 + 1
  · simp [inside, Nat.lt_of_lt_of_le inside (length_le relevant)]
  · simp [inside]

namespace Agree

theorem eq_of_all (agree : Agree (-1) a b) : a = b := by
  apply BitVec.eq_of_getLsbD_eq
  intro i bound
  apply agree
  have all : (-1 : Word) = BitVec.allOnes 64 := rfl
  rw [all, BitVec.getLsbD_allOnes]
  exact decide_eq_true bound

theorem of_eq (same : a = b) : Agree bits a b := fun _ _ => by rw [same]

theorem left {others : Word} (agree : Agree (bits ||| others) a b) : Agree bits a b := by
  intro i wanted
  apply agree
  rw [BitVec.getLsbD_or, wanted, Bool.true_or]

theorem right {others : Word} (agree : Agree (others ||| bits) a b) : Agree bits a b := by
  intro i wanted
  apply agree
  rw [BitVec.getLsbD_or, wanted, Bool.or_true]

theorem setWidth_eq (agree : Agree (Term.bitsUpTo bits) a b) (relevant : bits ≠ 0) :
    a.setWidth (bits.toNat.log2 + 1) = b.setWidth (bits.toNat.log2 + 1) := by
  apply BitVec.eq_of_getLsbD_eq
  intro i bound
  rw [BitVec.getLsbD_setWidth, BitVec.getLsbD_setWidth,
    agree i (by rw [getLsbD_bitsUpTo relevant, decide_eq_true bound])]

theorem of_setWidth_eq
    (same : bits ≠ 0 → a.setWidth (bits.toNat.log2 + 1) = b.setWidth (bits.toNat.log2 + 1)) :
    Agree bits a b := by
  intro i wanted
  have relevant : bits ≠ 0 := by
    rintro rfl
    simp at wanted
  have nonzero : bits.toNat ≠ 0 := Nat.ne_of_gt (toNat_pos relevant)
  have below : i < bits.toNat.log2 + 1 :=
    Nat.lt_succ_of_le ((Nat.le_log2 nonzero).mpr (Nat.ge_two_pow_of_testBit wanted))
  have both := congrArg (·.getLsbD i) (same relevant)
  simpa [BitVec.getLsbD_setWidth, below] using both

/-- No rank of a sum depends on the ranks above it. -/
theorem add (first : Agree (Term.bitsUpTo bits) a b) (second : Agree (Term.bitsUpTo bits) c d) :
    Agree bits (a + c) (b + d) := by
  refine of_setWidth_eq fun relevant => ?_
  rw [BitVec.setWidth_add _ _ (length_le relevant), BitVec.setWidth_add _ _ (length_le relevant),
    first.setWidth_eq relevant, second.setWidth_eq relevant]

theorem mul (first : Agree (Term.bitsUpTo bits) a b) (second : Agree (Term.bitsUpTo bits) c d) :
    Agree bits (a * c) (b * d) := by
  refine of_setWidth_eq fun relevant => ?_
  rw [BitVec.setWidth_mul _ _ (length_le relevant), BitVec.setWidth_mul _ _ (length_le relevant),
    first.setWidth_eq relevant, second.setWidth_eq relevant]

theorem neg (agree : Agree (Term.bitsUpTo bits) a b) : Agree bits (-a) (-b) := by
  refine of_setWidth_eq fun relevant => ?_
  rw [BitVec.setWidth_neg_of_le (length_le relevant), BitVec.setWidth_neg_of_le (length_le relevant),
    agree.setWidth_eq relevant]

theorem sub (first : Agree (Term.bitsUpTo bits) a b) (second : Agree (Term.bitsUpTo bits) c d) :
    Agree bits (a - c) (b - d) := by
  refine of_setWidth_eq fun relevant => ?_
  rw [setWidth_sub _ _ (length_le relevant), setWidth_sub _ _ (length_le relevant), first.setWidth_eq relevant,
    second.setWidth_eq relevant]

theorem complement (agree : Agree bits a b) : Agree bits (~~~a) (~~~b) := by
  intro i wanted
  rw [BitVec.getLsbD_not, BitVec.getLsbD_not, agree i wanted]

theorem and (first : Agree bits a b) (second : Agree bits c d) : Agree bits (a &&& c) (b &&& d) := by
  intro i wanted
  rw [BitVec.getLsbD_and, BitVec.getLsbD_and, first i wanted, second i wanted]

theorem or (first : Agree bits a b) (second : Agree bits c d) : Agree bits (a ||| c) (b ||| d) := by
  intro i wanted
  rw [BitVec.getLsbD_or, BitVec.getLsbD_or, first i wanted, second i wanted]

theorem xor (first : Agree bits a b) (second : Agree bits c d) : Agree bits (a ^^^ c) (b ^^^ d) := by
  intro i wanted
  rw [BitVec.getLsbD_xor, BitVec.getLsbD_xor, first i wanted, second i wanted]

theorem mask (agree : Agree (bits &&& c) a b) : Agree bits (c &&& a) (c &&& b) := by
  intro i wanted
  rw [BitVec.getLsbD_and, BitVec.getLsbD_and]
  cases through : c.getLsbD i with
  | false => rfl
  | true => rw [agree i (by rw [BitVec.getLsbD_and, wanted, through]; rfl)]

theorem shiftRight (agree : Agree (bits.shiftLeft c) a b) :
    Agree bits (a.shiftRight c) (b.shiftRight c) := by
  intro i wanted
  unfold Word.shiftRight
  split
  · rename_i inside
    rw [BitVec.getLsbD_ushiftRight, BitVec.getLsbD_ushiftRight]
    by_cases present : c.toNat + i < 64
    · apply agree
      rw [Word.shiftLeft, if_pos inside, BitVec.getLsbD_shiftLeft, Nat.add_sub_cancel_left, wanted]
      simp [present]
    · rw [BitVec.getLsbD_of_ge _ _ (Nat.le_of_not_lt present),
        BitVec.getLsbD_of_ge _ _ (Nat.le_of_not_lt present)]
  · rfl

end Agree
end Word

namespace Term

variable {env other : String → Word}

theorem apply_agree_unary {op : UnOp} {wanted a b : Word}
    (agree : Word.Agree (wantedOfUnary wanted op) a b) :
    Word.Agree wanted (op.apply a) (op.apply b) := by
  cases op with
  | plus => exact agree
  | neg => exact agree.neg
  | bitNot => exact agree.complement
  | logicalNot => exact .of_eq (congrArg _ agree.eq_of_all)

theorem apply_agree_binary {op : BinOp} {lhs rhs : Term} {wanted : Word}
    (left : Word.Agree (wantedOfBinary wanted op lhs rhs) (lhs.eval env) (lhs.eval other))
    (right : Word.Agree (wantedOfBinary wanted op lhs rhs) (rhs.eval env) (rhs.eval other)) :
    Word.Agree wanted (op.apply (lhs.eval env) (rhs.eval env))
      (op.apply (lhs.eval other) (rhs.eval other)) := by
  generalize used : wantedOfBinary wanted op lhs rhs = bits at left right
  unfold wantedOfBinary at used
  split at used <;> cases used
  · exact right.mask
  · exact left.shiftRight
  · exact left.and right
  · exact left.or right
  · exact left.xor right
  · exact left.add right
  · exact left.sub right
  · exact left.mul right
  · exact .of_eq (by rw [left.eq_of_all, right.eq_of_all])

/-- The wanted bits of a term are decided by those bits of the variables that matter for them. -/
theorem eval_agree {term : Term} {wanted : Word}
    (agree : ∀ name, Word.Agree (term.bitsOf name wanted) (env name) (other name)) :
    Word.Agree wanted (term.eval env) (term.eval other) := by
  induction term generalizing wanted with
  | word value => exact .of_eq rfl
  | symbol name =>
      have own := agree name
      rw [bitsOf, if_pos rfl] at own
      exact own
  | unary op operand ih => exact apply_agree_unary (ih agree)
  | binary op lhs rhs left right =>
      exact apply_agree_binary (left fun name => (agree name).left) (right fun name => (agree name).right)

end Term
end CExpr
