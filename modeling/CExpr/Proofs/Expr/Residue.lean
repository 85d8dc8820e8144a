import CExpr.Proofs.Expr.Equivalence

/-!
Sums, differences, products and what signs and complements make of them may be worked out with
integers of any size and reduced once at the end. Wrapping around at every step comes to the same,
since reduction modulo 2^64 goes along with each of these operators. Of the others, which look at the
size or the bits of their operands, this does not hold.
-/
namespace CExpr

def UnOp.onIntegers? : UnOp → Option (Int → Int)
  | plus => some fun a => a
  | neg => some fun a => -a
  | bitNot => some fun a => -a - 1
  | logicalNot => none

def BinOp.onIntegers? : BinOp → Option (Int → Int → Int)
  | plus => some fun a b => a + b
  | minus => some fun a b => a - b
  | mult => some fun a b => a * b
  | _ => none

theorem Word.ofInt_sub (a b : Int) :
    BitVec.ofInt 64 (a - b) = BitVec.ofInt 64 a - BitVec.ofInt 64 b := by
  rw [Int.sub_eq_add_neg, BitVec.ofInt_add, BitVec.ofInt_neg, BitVec.sub_eq_add_neg]

theorem UnOp.apply_ofInt {op : UnOp} {f : Int → Int} (exact : op.onIntegers? = some f) (a : Int) :
    op.apply (BitVec.ofInt 64 a) = BitVec.ofInt 64 (f a) := by
  cases op with
  | plus =>
      cases exact
      rfl
  | neg =>
      cases exact
      exact BitVec.ofInt_neg.symm
  | bitNot =>
      cases exact
      calc ~~~BitVec.ofInt 64 a
        _ = -BitVec.ofInt 64 a - 1#64 := BitVec.not_eq_neg_add _
        _ = BitVec.ofInt 64 (-a) - BitVec.ofInt 64 1 := by rw [BitVec.ofInt_neg]; rfl
        _ = BitVec.ofInt 64 (-a - 1) := (Word.ofInt_sub (-a) 1).symm
  | logicalNot => cases exact

theorem BinOp.apply_ofInt {op : BinOp} {f : Int → Int → Int} (exact : op.onIntegers? = some f)
    (a b : Int) :
    op.apply (BitVec.ofInt 64 a) (BitVec.ofInt 64 b) = BitVec.ofInt 64 (f a b) := by
  cases op with
  | plus =>
      cases exact
      exact (BitVec.ofInt_add a b).symm
  | minus =>
      cases exact
      exact (Word.ofInt_sub a b).symm
  | mult =>
      cases exact
      exact (BitVec.ofInt_mul a b).symm
  | _ => cases exact

namespace Expr

/-- Built from integer constants, variables and parentheses with `+`, `-`, `*`, both signs and the
complement. -/
def IsRing : Expr → Prop
  | integer _ | var _ => True
  | double _ => False
  | unary op operand => op ∈ [UnOp.plus, .neg, .bitNot] ∧ operand.IsRing
  | binary op lhs rhs => op ∈ [BinOp.plus, .minus, .mult] ∧ lhs.IsRing ∧ rhs.IsRing
  | parens inner => inner.IsRing

/-- The value over integers of any size, where nothing is ever reduced. -/
def exactValue? (bindings : Bindings) : Expr → Option Int
  | integer value => some value
  | double _ => none
  | var name => bindings.lookup name
  | unary op operand => do return (← op.onIntegers?) (← operand.exactValue? bindings)
  | binary op lhs rhs => do
    return (← op.onIntegers?) (← lhs.exactValue? bindings) (← rhs.exactValue? bindings)
  | parens inner => inner.exactValue? bindings

variable {e : Expr} {bindings : Bindings}

theorem hasDouble_of_isRing (ring : e.IsRing) : e.hasDouble = false := by
  induction e with
  | integer value | var name => rfl
  | double value => cases ring
  | unary op operand ih => exact ih ring.2
  | binary op lhs rhs left right =>
      exact Bool.or_eq_false_iff.mpr ⟨left ring.2.1, right ring.2.2⟩
  | parens inner ih => exact ih ring

theorem exists_onIntegers_of_sign {op : UnOp} (listed : op ∈ [UnOp.plus, .neg, .bitNot]) :
    ∃ f, op.onIntegers? = some f := by
  cases op with
  | plus | neg | bitNot => exact ⟨_, rfl⟩
  | logicalNot => exact absurd listed (by decide)

theorem exists_onIntegers_of_operator {op : BinOp} (listed : op ∈ [BinOp.plus, .minus, .mult]) :
    ∃ f, op.onIntegers? = some f := by
  simp only [List.mem_cons, List.not_mem_nil, or_false] at listed
  rcases listed with rfl | rfl | rfl <;> exact ⟨_, rfl⟩

theorem exists_exact (ring : e.IsRing) (covers : bindings.Covers e.names) :
    ∃ exact, e.exactValue? bindings = some exact := by
  induction e with
  | integer value => exact ⟨value, rfl⟩
  | double value => cases ring
  | var name => exact Option.isSome_iff_exists.mp (covers name (List.mem_singleton_self name))
  | unary op operand ih =>
      obtain ⟨f, same⟩ := exists_onIntegers_of_sign ring.1
      obtain ⟨a, known⟩ := ih ring.2 covers
      exact ⟨f a, by rw [exactValue?, same, known]; rfl⟩
  | binary op lhs rhs left right =>
      obtain ⟨inLeft, inRight⟩ := List.forall_mem_append.mp covers
      obtain ⟨f, same⟩ := exists_onIntegers_of_operator ring.1
      obtain ⟨a, knownLeft⟩ := left ring.2.1 inLeft
      obtain ⟨b, knownRight⟩ := right ring.2.2 inRight
      exact ⟨f a b, by rw [exactValue?, same, knownLeft, knownRight]; rfl⟩
  | parens inner ih => exact ih ring covers

theorem value_of_exact {exact : Int} (known : e.exactValue? bindings = some exact) :
    e.value bindings.word = BitVec.ofInt 64 exact := by
  -- At every node the word is the residue of the exact integer.
  induction e generalizing exact with
  | integer value =>
      cases known
      rfl
  | double value => cases known
  | var name =>
      have bound : bindings.lookup name = some exact := known
      rw [value, Bindings.word, bound, Option.getD_some]
  | unary op operand ih =>
      obtain ⟨f, same, applied⟩ := Option.bind_eq_some_iff.mp known
      obtain ⟨a, below, last⟩ := Option.bind_eq_some_iff.mp applied
      cases last
      rw [value, ih below, UnOp.apply_ofInt same]
  | binary op lhs rhs left right =>
      obtain ⟨f, same, applied⟩ := Option.bind_eq_some_iff.mp known
      obtain ⟨a, onLeft, applied⟩ := Option.bind_eq_some_iff.mp applied
      obtain ⟨b, onRight, last⟩ := Option.bind_eq_some_iff.mp applied
      cases last
      rw [value, left onLeft, right onRight, BinOp.apply_ofInt same]
  | parens inner ih => exact ih known

/-- Wrapping around at every operator gives the residue of the value that integers of any size give,
whatever becomes too large or negative on the way. -/
theorem reference_ring (e : Expr) (bindings : Bindings) (ring : e.IsRing)
    (covers : bindings.Covers e.names) :
    ∃ exact word, e.exactValue? bindings = some exact ∧ e.reference bindings = .ok word ∧
      (word.toNat : Int) = exact % 2 ^ 64 := by
  obtain ⟨exact, known⟩ := exists_exact ring covers
  refine ⟨exact, _, known, reference_eq_value (hasDouble_of_isRing ring) covers, ?_⟩
  rw [value_of_exact known, BitVec.toNat_ofInt]
  exact Int.toNat_of_nonneg (Int.emod_nonneg exact (by decide))

/-- `-(x * x) + ~y` where `x` has more than 64 bits and `y` is negative. -/
theorem reference_ring_large :
    let e := binary .plus (unary .neg (parens (binary .mult (var "x") (var "x"))))
      (unary .bitNot (var "y"))
    let bindings : Bindings := [("x", 2 ^ 80 + 3), ("y", -10)]
    e.IsRing ∧ bindings.Covers e.names ∧
    ∃ exact word, e.exactValue? bindings = some exact ∧ e.reference bindings = .ok word ∧
      (word.toNat : Int) = exact % 2 ^ 64 := by
  intro e bindings
  have ring : e.IsRing := ⟨by decide, ⟨by decide, by decide, trivial, trivial⟩, by decide, trivial⟩
  have covers : bindings.Covers e.names := by decide
  exact ⟨ring, covers, reference_ring e bindings ring covers⟩

end Expr
end CExpr
