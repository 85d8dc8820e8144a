import CExpr.Proofs.Circuit.Value

/-!
The circuits of word arithmetic compute what they are drawn for: bitwise operators, sums,
differences and products cut off at the width of the words, comparisons, and shifts by any amount.
-/
namespace CExpr

open Signal

namespace Bits

variable (inputs : Nat → Bool) {a b : Bits}

/-- A lowest bit in front: the sum below a power of two is cut off bit by bit. -/
theorem bit_add_mod (bit : Bool) (number width : Nat) :
    (bit.toNat + 2 * number) % 2 ^ (width + 1) = bit.toNat + 2 * (number % 2 ^ width) := by
  have small := Bool.toNat_lt bit
  rw [Nat.pow_succ, Nat.mul_comm _ 2, Nat.mod_mul, Nat.add_mul_mod_self_left,
    Nat.mod_eq_of_lt small, Nat.add_mul_div_left _ _ Nat.two_pos, Nat.div_eq_of_lt small, Nat.zero_add]

theorem yields_any (a : Bits) : Yields a.any fun signal =>
    signal.eval inputs = decide (value inputs a ≠ 0) := by
  induction a with
  | nil => exact .pure rfl
  | cons a as ih =>
      refine Yields.bind ih fun rest same => ?_
      refine (yields_either inputs a rest).imp fun signal either => ?_
      rw [either, same, value_cons]
      cases a.eval inputs with
      | false =>
          refine decide_eq_decide.mpr ?_
          rw [Bool.toNat_false]
          omega
      | true =>
          refine (decide_eq_true ?_).symm
          rw [Bool.toNat_true]
          omega

theorem yields_combine {gate : Signal → Signal → Build Signal} {f : Bool → Bool → Bool}
    {result : Nat → Nat → Nat}
    (gates : ∀ a b, Yields (gate a b) fun signal =>
      signal.eval inputs = f (a.eval inputs) (b.eval inputs))
    (empty : result 0 0 = 0)
    (bits : ∀ (x y : Bool) (m n : Nat),
      result (x.toNat + 2 * m) (y.toNat + 2 * n) = (f x y).toNat + 2 * result m n)
    (same : a.length = b.length) :
    Yields (combine gate a b) fun word =>
      word.length = a.length ∧ value inputs word = result (value inputs a) (value inputs b) := by
  induction a generalizing b with
  | nil =>
      cases b with
      | nil => exact .pure ⟨rfl, empty.symm⟩
      | cons b bs => cases same
  | cons a as ih =>
      cases b with
      | nil => cases same
      | cons b bs =>
          refine Yields.bind (gates a b) fun signal first => ?_
          refine Yields.bind (ih (Nat.succ.inj same)) fun rest ⟨length, second⟩ => .pure ?_
          rw [List.length_cons, List.length_cons, length, value_cons, first, second, value_cons,
            value_cons, bits]
          exact ⟨rfl, rfl⟩

theorem yields_add {carry : Signal} (same : a.length = b.length) :
    Yields (add carry a b) fun word => word.length = a.length ∧ value inputs word =
      (value inputs a + value inputs b + (carry.eval inputs).toNat) % 2 ^ a.length := by
  induction a generalizing b carry with
  | nil =>
      cases b with
      | nil => exact .pure ⟨rfl, (Nat.mod_one _).symm⟩
      | cons b bs => cases same
  | cons a as ih =>
      cases b with
      | nil => cases same
      | cons b bs =>
          refine Yields.bind (yields_differ inputs a b) fun unequal isUnequal => ?_
          refine Yields.bind (yields_differ inputs unequal carry) fun sum isSum => ?_
          refine Yields.bind (yields_select inputs unequal carry a) fun next isNext => ?_
          refine Yields.bind (ih (Nat.succ.inj same)) fun rest ⟨length, isRest⟩ => .pure ?_
          refine ⟨congrArg Nat.succ length, ?_⟩
          have cell : (a.eval inputs).toNat + (b.eval inputs).toNat + (carry.eval inputs).toNat =
              (sum.eval inputs).toNat + 2 * (next.eval inputs).toNat := by
            rw [isSum, isNext, isUnequal]
            cases a.eval inputs <;> cases b.eval inputs <;> cases carry.eval inputs <;> rfl
          have whole : value inputs (a :: as) + value inputs (b :: bs) + (carry.eval inputs).toNat =
              (sum.eval inputs).toNat +
                2 * (value inputs as + value inputs bs + (next.eval inputs).toNat) := by
            rw [value_cons, value_cons]
            omega
          rw [whole, List.length_cons, bit_add_mod, value_cons, isRest]

theorem yields_subtract (same : a.length = b.length) :
    Yields (subtract a b) fun word => word.length = a.length ∧ value inputs word =
      (value inputs a + (2 ^ a.length - value inputs b)) % 2 ^ a.length := by
  refine (yields_add inputs (same.trans (length_complement b).symm)).imp fun word ⟨length, sum⟩ =>
    ⟨length, sum.trans (congrArg (· % 2 ^ a.length) ?_)⟩
  have complement := @value_complement inputs b
  have one : ((fixed true).eval inputs).toNat = 1 := rfl
  rw [← same] at complement
  omega

theorem yields_less {below : Signal} (same : a.length = b.length) :
    Yields (less below a b) fun signal => signal.eval inputs =
      decide (value inputs a < value inputs b ∨
        value inputs a = value inputs b ∧ below.eval inputs = true) := by
  induction a generalizing b below with
  | nil =>
      cases b with
      | nil => exact .pure (by simp)
      | cons b bs => cases same
  | cons a as ih =>
      cases b with
      | nil => cases same
      | cons b bs =>
          rw [less]
          split
          · rename_i zero
            refine Yields.bind (yields_any inputs (b :: bs)) fun nonzero isNonzero => ?_
            refine (yields_either inputs below nonzero).imp fun signal isSignal => ?_
            rw [isSignal, isNonzero, value_eq_zero_of_all zero, Bool.eq_iff_iff, Bool.or_eq_true,
              decide_eq_true_eq, decide_eq_true_eq]
            grind only
          · refine Yields.bind (yields_differ inputs a b) fun unequal isUnequal => ?_
            refine Yields.bind (yields_select inputs unequal b below) fun next isNext => ?_
            refine (ih (Nat.succ.inj same)).imp fun signal isSignal => isSignal.trans ?_
            rw [isNext, isUnequal, value_cons, value_cons, decide_eq_decide]
            cases a.eval inputs <;> cases b.eval inputs <;> simp <;> grind only

theorem yields_row (a : Signal) (b : Bits) : Yields (b.mapM (both a)) fun word =>
    word.length = b.length ∧ value inputs word = (a.eval inputs).toNat * value inputs b := by
  induction b with
  | nil => exact .pure ⟨rfl, rfl⟩
  | cons b bs ih =>
      rw [List.mapM_cons]
      refine Yields.bind (yields_both inputs a b) fun first isFirst => ?_
      refine Yields.bind ih fun rest ⟨length, isRest⟩ => .pure ⟨congrArg Nat.succ length, ?_⟩
      rw [value_cons, value_cons, isFirst, isRest]
      cases a.eval inputs <;> simp

/-- The rows of a product are added from the lowest on. What is settled of the sum is not touched
again, so the width shrinks as the factor moves up. -/
theorem yields_multiplyOnto {sum : Bits} (enough : sum.length ≤ b.length) :
    Yields (multiplyOnto sum a b) fun word => word.length = sum.length ∧ value inputs word =
      (value inputs sum + value inputs a * value inputs b) % 2 ^ sum.length := by
  induction a generalizing sum with
  | nil =>
      refine .pure ⟨rfl, ?_⟩
      rw [value_nil, Nat.zero_mul, Nat.add_zero, Nat.mod_eq_of_lt (value_lt sum)]
  | cons a as ih =>
      rw [multiplyOnto]
      refine Yields.bind (yields_row inputs a (b.take sum.length)) fun row ⟨rowLength, isRow⟩ => ?_
      have same : sum.length = row.length := by rw [rowLength, List.length_take_of_le enough]
      refine Yields.bind (yields_add inputs same) fun next isNext => ?_
      have ⟨nextLength, nextValue⟩ := isNext
      rw [isRow, value_take, show ((fixed false).eval inputs).toNat = 0 from rfl, Nat.add_zero,
        Nat.add_mod, Nat.mul_mod_mod, ← Nat.add_mod] at nextValue
      cases next with
      | nil =>
          refine .pure ⟨nextLength, ?_⟩
          rw [← nextLength, List.length_nil, Nat.pow_zero, Nat.mod_one]
          rfl
      | cons lowest rest =>
          rw [← nextLength] at enough nextValue ⊢
          refine Yields.bind (ih (Nat.le_of_succ_le enough)) fun above ⟨length, isAbove⟩ => .pure ?_
          refine ⟨congrArg Nat.succ length, ?_⟩
          rw [value_cons, isAbove, ← bit_add_mod, ← List.length_cons]
          have whole : (lowest.eval inputs).toNat +
              2 * (value inputs rest + value inputs as * value inputs b) =
              value inputs (lowest :: rest) + 2 * (value inputs as * value inputs b) := by
            rw [value_cons]
            omega
          rw [whole, nextValue, Nat.mod_add_mod, value_cons, Nat.add_mul, Nat.mul_assoc,
            Nat.add_assoc]

theorem yields_multiply (same : a.length = b.length) :
    Yields (multiply a b) fun word => word.length = a.length ∧ value inputs word =
      value inputs a * value inputs b % 2 ^ a.length := by
  have rows : ∀ {a b : Bits}, a.length = b.length →
      Yields (multiplyOnto (zeros a.length) a b) fun word => word.length = a.length ∧
        value inputs word = value inputs a * value inputs b % 2 ^ a.length := by
    intro a b same
    have sum := yields_multiplyOnto inputs (a := a)
      (Nat.le_of_eq ((length_zeros _).trans same))
    rw [length_zeros, value_zeros, Nat.zero_add] at sum
    exact sum
  unfold multiply
  extract_lets
  split
  · exact rows same
  · rw [same, Nat.mul_comm]
    exact rows same.symm

theorem yields_chosen (condition : Signal) (same : a.length = b.length) :
    Yields (select condition a b) fun word => word.length = a.length ∧ value inputs word =
      if condition.eval inputs then value inputs a else value inputs b := by
  refine @yields_combine inputs a b (Signal.select condition)
    (fun x y => if condition.eval inputs then x else y)
    (fun m n => if condition.eval inputs then m else n)
    (yields_select inputs condition) (ite_self _) (fun x y m n => ?_) same
  cases condition.eval inputs <;> rfl

/-- A move of the bits that acts on the numbers as `moved` does, and more of which adds up. -/
structure Moves (move : Nat → Bits → Bits) (moved : Nat → Nat → Nat → Nat) : Prop where
  length_move (count : Nat) (a : Bits) : (move count a).length = a.length
  value_move (inputs : Nat → Bool) (count : Nat) (a : Bits) :
    value inputs (move count a) = moved a.length count (value inputs a)
  nothing (width number : Nat) : number < 2 ^ width → moved width 0 number = number
  more (width near far number : Nat) :
    moved width far (moved width near number) = moved width (near + far) number

theorem moves_moveUp : Moves moveUp fun width count number => number * 2 ^ count % 2 ^ width where
  length_move := length_moveUp
  value_move _ := value_moveUp
  nothing width number small := by rw [Nat.pow_zero, Nat.mul_one, Nat.mod_eq_of_lt small]
  more width near far number := by rw [Nat.mod_mul_mod, Nat.mul_assoc, Nat.pow_add]

theorem moves_moveDown : Moves moveDown fun _ count number => number / 2 ^ count where
  length_move := length_moveDown
  value_move _ := value_moveDown
  nothing width number _ := by rw [Nat.pow_zero, Nat.div_one]
  more width near far number := by rw [Nat.div_div_eq_div_mul, Nat.pow_add]

/-- The moves by powers of two, from some rank of the amount on, add up to its number. -/
theorem Moves.yields_ranks {move : Nat → Bits → Bits} {moved : Nat → Nat → Nat → Nat}
    (moves : Moves move moved) (a amount : Bits) (rank : Nat) :
    Yields ((amount.zipIdx rank).foldlM
      (fun a (bit, index) => select bit (move (2 ^ index) a) a) a) fun word =>
      word.length = a.length ∧ value inputs word =
        moved a.length (2 ^ rank * value inputs amount) (value inputs a) := by
  induction amount generalizing a rank with
  | nil => exact .pure ⟨rfl, by rw [value_nil, Nat.mul_zero, moves.nothing _ _ (value_lt a)]⟩
  | cons bit amount ih =>
      rw [List.zipIdx_cons, List.foldlM_cons]
      have step := yields_chosen inputs bit (moves.length_move (2 ^ rank) a)
      refine Yields.bind step fun next ⟨length, isNext⟩ => ?_
      rw [moves.length_move] at length
      refine (ih next (rank + 1)).imp fun word ⟨wordLength, isWord⟩ => ⟨wordLength.trans length, ?_⟩
      rw [isWord, isNext, length, value_cons]
      cases bit.eval inputs with
      | true =>
          rw [if_pos rfl, moves.value_move, moves.more, Nat.pow_succ, Nat.mul_assoc, Nat.mul_add,
            Bool.toNat_true, Nat.mul_one]
      | false =>
          rw [if_neg Bool.false_ne_true, Nat.pow_succ, Nat.mul_assoc, Bool.toNat_false,
            Nat.zero_add]

theorem Moves.yields_moveBy {move : Nat → Bits → Bits} {moved : Nat → Nat → Nat → Nat}
    (moves : Moves move moved) (a amount : Bits) :
    Yields (moveBy move a amount) fun word => word.length = a.length ∧ value inputs word =
      if value inputs amount < 64 then moved a.length (value inputs amount) (value inputs a)
      else 0 := by
  refine Yields.bind (moves.yields_ranks inputs a (amount.take 6) 0) fun near ⟨length, isNear⟩ => ?_
  refine Yields.bind (yields_any inputs (amount.drop 6)) fun far isFar => ?_
  have chosen := yields_chosen inputs far
    ((length_zeros _).trans length.symm)
  refine chosen.imp fun word ⟨wordLength, isWord⟩ => ⟨wordLength.trans (length_zeros _), ?_⟩
  rw [isWord, isFar, isNear, value_drop, value_take, value_zeros, Nat.pow_zero, Nat.one_mul,
    show 2 ^ 6 = 64 from rfl]
  by_cases small : value inputs amount < 64
  · rw [if_pos small, Nat.div_eq_of_lt small, Nat.mod_eq_of_lt small]
    rfl
  · rw [if_neg small, if_pos]
    exact decide_eq_true (by omega)

end Bits
end CExpr
