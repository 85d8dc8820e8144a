import CExpr.Proofs.Circuit.Division
import CExpr.Proofs.Term.Word
import CExpr.Term.Bits

/-!
The circuit of a term shows the value of the term: its signals are the lowest bits of that value
when the input signals are the bits of the values of the inputs.
-/
namespace CExpr

open Signal

namespace Bits

variable (inputs : Nat → Bool) {a b : Bits} {width : Nat} {x y : Word}

def Shows (width : Nat) (x : Word) (a : Bits) : Prop :=
  a.length = width ∧ value inputs a = (x.setWidth width).toNat

variable {inputs}

theorem shows_of_bits {signal : Nat → Signal}
    (bits : ∀ i, i < width → (signal i).eval inputs = x.getLsbD i) :
    Shows inputs width x ((List.range width).map signal) := by
  refine ⟨by rw [List.length_map, List.length_range], ?_⟩
  rw [BitVec.toNat_setWidth]
  induction width with
  | zero => rw [Nat.pow_zero, Nat.mod_one]; rfl
  | succ width ih =>
      rw [List.range_succ, List.map_append, value_append, ih fun i inside =>
        bits i (Nat.lt_succ_of_lt inside), List.length_map, List.length_range, List.map_singleton,
        value_cons, value_nil, bits width (Nat.lt_succ_self _), Nat.mod_pow_succ, Nat.mul_zero,
        Nat.add_zero, BitVec.getLsbD, ← Nat.toNat_testBit]

theorem Shows.toNat (shows : Shows inputs 64 x a) : value inputs a = x.toNat := by
  rw [shows.2, BitVec.setWidth_eq]

theorem shows_ofTruth {signal : Signal} {truth : Bool} (same : signal.eval inputs = truth)
    (width : Nat) : Shows inputs width (Word.ofBool truth) (ofTruth width signal) :=
  ⟨length_ofTruth width signal, by
    rw [value_ofTruth, same, BitVec.toNat_setWidth, Word.toNat_ofBool]⟩

variable (inputs)

theorem yields_bitwise {gate : Signal → Signal → Build Signal} {f : Bool → Bool → Bool}
    {result : Nat → Nat → Nat}
    (gates : ∀ a b, Yields (gate a b) fun signal =>
      signal.eval inputs = f (a.eval inputs) (b.eval inputs))
    (testBit : ∀ m n i, (result m n).testBit i = f (m.testBit i) (n.testBit i))
    (empty : f false false = false) (same : a.length = b.length) :
    Yields (combine gate a b) fun word =>
      word.length = a.length ∧ value inputs word = result (value inputs a) (value inputs b) := by
  have lowest : ∀ (x : Bool) (m : Nat), (x.toNat + 2 * m).testBit 0 = x := by
    intro x m
    cases x <;> simp [Nat.testBit_zero]
  have above : ∀ (x : Bool) (m i : Nat), (x.toNat + 2 * m).testBit (i + 1) = m.testBit i := by
    intro x m i
    rw [Nat.testBit_succ, Nat.add_mul_div_left _ _ Nat.two_pos, Nat.div_eq_of_lt (Bool.toNat_lt x),
      Nat.zero_add]
  refine yields_combine inputs gates ?_ (fun x y m n => ?_) same
  · apply Nat.eq_of_testBit_eq
    intro i
    rw [testBit, Nat.zero_testBit, empty]
  · apply Nat.eq_of_testBit_eq
    intro i
    cases i with
    | zero => rw [testBit, lowest, lowest, lowest]
    | succ i => rw [testBit, above, above, above, testBit]

theorem combine_take (gate : Signal → Signal → Build Signal) (a b : Bits) :
    combine gate a b = combine gate (a.take b.length) b := by
  induction a generalizing b with
  | nil => rw [List.take_nil]
  | cons a as ih =>
      cases b with
      | nil => rfl
      | cons b bs => rw [List.length_cons, List.take_succ_cons, combine, combine, ih]

end Bits

open Bits

namespace Bits.Shows

variable {inputs : Nat → Bool} {a b : Bits} {width : Nat} {x y : Word}

theorem complement (shows : Shows inputs width x a) (enough : width ≤ 64) :
    Shows inputs width (~~~x) a.complement := by
  have ⟨length, same⟩ := shows
  refine ⟨(length_complement a).trans length, ?_⟩
  have whole := @value_complement inputs a
  rw [length, same] at whole
  rw [BitVec.setWidth_not enough, BitVec.toNat_not, Nat.sub_sub, ← whole]
  omega

theorem yields_any (shows : Shows inputs 64 x a) : Yields a.any fun signal =>
    signal.eval inputs = (x != 0) := by
  refine (Bits.yields_any inputs a).imp fun signal isSignal => isSignal.trans ?_
  rw [shows.toNat, bne, Word.beq_eq_decide, decide_not]
  rfl

theorem yields_isZero (shows : Shows inputs 64 x a) : Yields a.isZero fun signal =>
    signal.eval inputs = (x == 0) := by
  refine Yields.bind shows.yields_any fun signal isSignal => .pure ?_
  rw [eval_negate, isSignal, bne, Bool.not_not]

section
variable (showsA : Shows inputs width x a) (showsB : Shows inputs width y b)
include showsA showsB

theorem length_eq : a.length = b.length := showsA.1.trans showsB.1.symm

theorem yields_add (enough : width ≤ 64) :
    Yields (add (fixed false) a b) (Shows inputs width (x + y)) := by
  refine (Bits.yields_add inputs (showsA.length_eq showsB)).imp
    fun word ⟨length, sum⟩ => ⟨length.trans showsA.1, ?_⟩
  rw [sum, showsA.1, showsA.2, showsB.2, BitVec.setWidth_add _ _ enough, BitVec.toNat_add]
  rfl

theorem yields_subtract (enough : width ≤ 64) :
    Yields (subtract a b) (Shows inputs width (x - y)) := by
  refine (Bits.yields_subtract inputs (showsA.length_eq showsB)).imp
    fun word ⟨length, difference⟩ => ⟨length.trans showsA.1, ?_⟩
  rw [difference, showsA.1, showsA.2, showsB.2, Word.setWidth_sub _ _ enough, BitVec.toNat_sub']

theorem yields_multiply (enough : width ≤ 64) :
    Yields (multiply a b) (Shows inputs width (x * y)) := by
  refine (Bits.yields_multiply inputs (showsA.length_eq showsB)).imp
    fun word ⟨length, product⟩ => ⟨length.trans showsA.1, ?_⟩
  rw [product, showsA.1, showsA.2, showsB.2, BitVec.setWidth_mul _ _ enough, BitVec.toNat_mul]

theorem yields_or : Yields (combine either a b) (Shows inputs width (x ||| y)) := by
  refine (yields_bitwise inputs (yields_either inputs) Nat.testBit_or rfl
    (showsA.length_eq showsB)).imp fun word ⟨length, union⟩ => ⟨length.trans showsA.1, ?_⟩
  rw [union, showsA.2, showsB.2, BitVec.setWidth_or, BitVec.toNat_or]

theorem yields_xor : Yields (combine differ a b) (Shows inputs width (x ^^^ y)) := by
  refine (yields_bitwise inputs (yields_differ inputs) Nat.testBit_xor rfl
    (showsA.length_eq showsB)).imp fun word ⟨length, difference⟩ => ⟨length.trans showsA.1, ?_⟩
  rw [difference, showsA.2, showsB.2, BitVec.setWidth_xor, BitVec.toNat_xor]

end

theorem and_mod_of_lt {m n width bound : Nat} (small : m % 2 ^ width < 2 ^ bound) :
    m % 2 ^ width % 2 ^ bound &&& n % 2 ^ bound = (m &&& n) % 2 ^ width := by
  have covered : (m % 2 ^ width &&& n) < 2 ^ bound := Nat.lt_of_le_of_lt Nat.and_le_left small
  have inside : (m % 2 ^ width &&& n) < 2 ^ width :=
    Nat.lt_of_le_of_lt Nat.and_le_left (Nat.mod_lt _ (Nat.two_pow_pos _))
  rw [← Nat.and_mod_two_pow, Nat.mod_eq_of_lt covered, ← Nat.mod_eq_of_lt inside,
    Nat.and_mod_two_pow, Nat.mod_mod, ← Nat.and_mod_two_pow]

/-- Of the right operand a conjunction needs no more bits than the left one has. -/
theorem yields_and (showsA : Shows inputs width x a) (showsB : Shows inputs a.significant y b) :
    Yields (combine both a b) fun word =>
      Shows inputs width (x &&& y) (word ++ zeros (width - b.length)) := by
  have ⟨lengthA, isA⟩ := showsA
  have ⟨lengthB, isB⟩ := showsB
  have bound := significant_le a
  have same : (a.take b.length).length = b.length := List.length_take_of_le (lengthB ▸ bound)
  rw [combine_take]
  refine (yields_bitwise inputs (yields_both inputs) Nat.testBit_and rfl same).imp
    fun word ⟨length, conjunction⟩ => ⟨?_, ?_⟩
  · rw [List.length_append, length_zeros, length, same]
    omega
  · have small := @value_lt_significant inputs a
    rw [isA, BitVec.toNat_setWidth] at small
    rw [value_append, value_zeros, Nat.mul_zero, Nat.add_zero, conjunction, value_take, isB, lengthB,
      isA, BitVec.toNat_setWidth, BitVec.toNat_setWidth, BitVec.toNat_setWidth, BitVec.toNat_and,
      and_mod_of_lt small]

section
variable (showsA : Shows inputs 64 x a) (showsB : Shows inputs 64 y b)
include showsA showsB

theorem yields_less : Yields (less (fixed false) a b) fun signal =>
    signal.eval inputs = x.ult y := by
  refine (Bits.yields_less inputs (showsA.length_eq showsB)).imp
    fun signal isSignal => isSignal.trans ?_
  rw [showsA.toNat, showsB.toNat, BitVec.ult_eq_decide, decide_eq_decide]
  simp [Signal.eval]

theorem yields_divide : Yields (divide a b) fun word =>
    Shows inputs 64 (x.divide y) word.1 ∧ Shows inputs 64 (x.remainder y) word.2 := by
  have divided := Bits.yields_divide inputs (Nat.le_of_eq (showsA.length_eq showsB))
  rw [← showsA.length_eq showsB, showsA.toNat, showsB.toNat] at divided
  refine divided.imp fun word ⟨quotientLength, remainderLength, isQuotient, isRemainder⟩ => ?_
  refine ⟨⟨quotientLength.trans showsA.1, ?_⟩, remainderLength.trans showsA.1, ?_⟩
  · rw [isQuotient, BitVec.setWidth_eq, showsA.1]
    by_cases zero : y = 0
    · rw [zero, Word.divide_zero]
      rfl
    · rw [if_neg (Nat.ne_of_gt (Word.toNat_pos zero)), Word.toNat_divide _ zero]
  · rw [isRemainder, BitVec.setWidth_eq, Word.toNat_remainder]

theorem yields_shiftLeft : Yields (moveBy moveUp a b) (Shows inputs 64 (x.shiftLeft y)) := by
  refine (moves_moveUp.yields_moveBy inputs a b).imp
    fun word ⟨length, moved⟩ => ⟨length.trans showsA.1, ?_⟩
  rw [moved, showsA.1, showsA.toNat, showsB.toNat, BitVec.setWidth_eq, Word.shiftLeft]
  split
  · rw [BitVec.toNat_shiftLeft, Nat.shiftLeft_eq]
  · rfl

theorem yields_shiftRight : Yields (moveBy moveDown a b) (Shows inputs 64 (x.shiftRight y)) := by
  refine (moves_moveDown.yields_moveBy inputs a b).imp
    fun word ⟨length, moved⟩ => ⟨length.trans showsA.1, ?_⟩
  rw [moved, showsA.toNat, showsB.toNat, BitVec.setWidth_eq, Word.shiftRight]
  split
  · rw [BitVec.toNat_ushiftRight, Nat.shiftRight_eq_div_pow]
  · rfl

end

theorem take (shows : Shows inputs 64 x a) (enough : width ≤ 64) :
    Shows inputs width x (a.take width) :=
  ⟨List.length_take_of_le (shows.1 ▸ enough), by
    rw [value_take, shows.toNat, BitVec.toNat_setWidth]⟩

end Bits.Shows

variable (inputs : Nat → Bool) {a b : Bits} {width : Nat} {x y : Word}

theorem UnOp.yields_bits (op : UnOp) (enough : width ≤ 64)
    (shows : Shows inputs (if op.wantsAll then 64 else width) x a) :
    Yields (op.bits width a) (Shows inputs width (op.apply x)) := by
  cases op with
  | plus => exact .pure shows
  | neg =>
      have zero : Shows inputs width 0#64 (zeros width) :=
        ⟨length_zeros width, by rw [value_zeros, BitVec.setWidth_zero]; rfl⟩
      have difference := zero.yields_subtract shows enough
      rwa [BitVec.zero_sub] at difference
  | logicalNot =>
      exact Yields.bind (Shows.yields_isZero shows) fun signal isSignal =>
        .pure (shows_ofTruth isSignal width)
  | bitNot => exact .pure (Shows.complement shows enough)

theorem BinOp.yields_bits (op : BinOp) (enough : width ≤ 64)
    (showsA : Shows inputs (if op.wantsAll then 64 else width) x a)
    (showsB : Shows inputs (if op = .bitAnd then a.significant else
      if op.wantsAll then 64 else width) y b) :
    Yields (op.bits width a b) (Shows inputs width (op.apply x y)) := by
  cases op with
  | plus => exact Shows.yields_add showsA showsB enough
  | minus => exact Shows.yields_subtract showsA showsB enough
  | mult => exact Shows.yields_multiply showsA showsB enough
  | div =>
      exact Yields.bind (Shows.yields_divide showsA showsB) fun word shows =>
        .pure (shows.1.take enough)
  | mod =>
      exact Yields.bind (Shows.yields_divide showsA showsB) fun word shows =>
        .pure (shows.2.take enough)
  | logicalAnd =>
      refine Yields.bind (Shows.yields_any showsA) fun left isLeft => ?_
      refine Yields.bind (Shows.yields_any showsB) fun right isRight => ?_
      refine Yields.bind (yields_both inputs left right) fun signal isSignal => .pure ?_
      rw [isLeft, isRight] at isSignal
      exact shows_ofTruth isSignal width
  | logicalOr =>
      refine Yields.bind (Shows.yields_any showsA) fun left isLeft => ?_
      refine Yields.bind (Shows.yields_any showsB) fun right isRight => ?_
      refine Yields.bind (yields_either inputs left right) fun signal isSignal => .pure ?_
      rw [isLeft, isRight] at isSignal
      exact shows_ofTruth isSignal width
  | bitAnd =>
      exact Yields.bind (Shows.yields_and showsA showsB) fun word shows => .pure shows
  | bitOr => exact Shows.yields_or showsA showsB
  | bitXor => exact Shows.yields_xor showsA showsB
  | shl =>
      exact Yields.bind (Shows.yields_shiftLeft showsA showsB) fun word shows =>
        .pure (shows.take enough)
  | shr =>
      exact Yields.bind (Shows.yields_shiftRight showsA showsB) fun word shows =>
        .pure (shows.take enough)
  | eq =>
      refine Yields.bind (Shows.yields_xor showsA showsB) fun word shows => ?_
      refine Yields.bind (Shows.yields_isZero shows) fun signal isSignal => .pure ?_
      rw [Word.xor_beq_zero] at isSignal
      exact shows_ofTruth isSignal width
  | ne =>
      refine Yields.bind (Shows.yields_xor showsA showsB) fun word shows => ?_
      refine Yields.bind (Shows.yields_any shows) fun signal isSignal => .pure ?_
      rw [bne, Word.xor_beq_zero] at isSignal
      exact shows_ofTruth isSignal width
  | lt =>
      exact Yields.bind (Shows.yields_less showsA showsB) fun signal isSignal =>
        .pure (shows_ofTruth isSignal width)
  | le =>
      refine Yields.bind (Shows.yields_less showsB showsA) fun signal isSignal => .pure ?_
      refine shows_ofTruth ?_ width
      rw [eval_negate, isSignal, ← BitVec.ule_eq_not_ult]
  | gt =>
      exact Yields.bind (Shows.yields_less showsB showsA) fun signal isSignal =>
        .pure (shows_ofTruth isSignal width)
  | ge =>
      refine Yields.bind (Shows.yields_less showsA showsB) fun signal isSignal => .pure ?_
      refine shows_ofTruth ?_ width
      rw [eval_negate, isSignal, ← BitVec.ule_eq_not_ult]

namespace Term

def Covered (inputs : List Term) : Term → Prop
  | word _ => True
  | symbol name => symbol name ∈ inputs
  | unary op operand => unary op operand ∈ inputs ∨ operand.Covered inputs
  | binary op lhs rhs => binary op lhs rhs ∈ inputs ∨ lhs.Covered inputs ∧ rhs.Covered inputs

def truth (inputs : List Term) (env : String → Word) (signal : Nat) : Bool :=
  (inputs[signal % inputs.length]?.map (eval env)).any fun value =>
    value.getLsbD (signal / inputs.length)

theorem shows_input {inputs : List Term} (env : String → Word) {index : Nat} {term : Term}
    (found : inputs.idxOf? term = some index) (width : Nat) :
    Shows (truth inputs env) width (term.eval env) (input inputs.length index width) := by
  obtain ⟨inside, same, _⟩ := List.findIdx?_eq_some_iff_getElem.mp found
  refine shows_of_bits fun bit _ => ?_
  have rank : (bit * inputs.length + index) / inputs.length = bit := by
    rw [Nat.mul_comm, Nat.mul_add_div (Nat.zero_lt_of_lt inside), Nat.div_eq_of_lt inside,
      Nat.add_zero]
  have place : (bit * inputs.length + index) % inputs.length = index := by
    rw [Nat.mul_comm, Nat.mul_add_mod, Nat.mod_eq_of_lt inside]
  rw [Signal.eval, truth, rank, place, List.getElem?_eq_getElem inside, beq_iff_eq.mp same]
  rfl

theorem yields_bits {inputs : List Term} (env : String → Word) {term : Term}
    (covered : term.Covered inputs) {width : Nat} (enough : width ≤ 64) :
    Yields (term.bits inputs width) (Shows (truth inputs env) width (term.eval env)) := by
  fun_induction bits inputs width term with
  | case1 term width index found => exact .pure (shows_input env found width)
  | case2 width value absent => exact .pure (shows_of_bits fun _ _ => rfl)
  | case3 width name absent => exact absurd covered (List.idxOf?_eq_none_iff.mp absent)
  | case4 width op operand absent ih =>
      have inside := covered.resolve_left (List.idxOf?_eq_none_iff.mp absent)
      have wanted : (if op.wantsAll then 64 else width) ≤ 64 := by split <;> omega
      exact Yields.bind (ih inside wanted) fun word shows =>
        UnOp.yields_bits _ op enough shows
  | case5 width op lhs rhs most absent ihL ihR =>
      have ⟨insideL, insideR⟩ := covered.resolve_left (List.idxOf?_eq_none_iff.mp absent)
      have wanted : most ≤ 64 := by unfold most; split <;> omega
      refine Yields.bind (ihL insideL wanted) fun left showsL => ?_
      have less : (if op = .bitAnd then left.significant else most) ≤ 64 := by
        split
        · exact Nat.le_trans (significant_le left) (showsL.1 ▸ wanted)
        · exact wanted
      exact Yields.bind (ihR left insideR less) fun right showsR =>
        BinOp.yields_bits _ op enough showsL showsR

theorem covered_inputs (whole : Term → Bool) {term : Term} {inputs : List Term}
    (all : ∀ input ∈ term.inputs whole, input ∈ inputs) : term.Covered inputs := by
  induction term with
  | word value => trivial
  | symbol name =>
      refine all _ ?_
      rw [Term.inputs, ite_self]
      exact List.mem_singleton.mpr rfl
  | unary op operand ih =>
      unfold Term.inputs at all
      split at all
      · exact .inl (all _ (List.mem_singleton.mpr rfl))
      · exact .inr (ih all)
  | binary op lhs rhs ihL ihR =>
      unfold Term.inputs at all
      split at all
      · exact .inl (all _ (List.mem_singleton.mpr rfl))
      · refine .inr ⟨ihL fun input member => all _ ?_, ihR fun input member => all _ ?_⟩ <;>
          rw [List.mem_eraseDups, List.mem_append]
        · exact .inl member
        · exact .inr member

end Term

end CExpr
