import CExpr.Mask

/-!
Ranks of set bits. The ones of the binary numeral are the set bits below the width, and every rank
from one to their number belongs to exactly one of them: the one with a set bit less before it.
-/
namespace CExpr

theorem countP_testBit_succ (bits width : Nat) :
    (List.range (width + 1)).countP bits.testBit =
      (List.range width).countP (bits / 2).testBit + bits % 2 := by
  rw [List.range_succ_eq_map, List.countP_cons, List.countP_map]
  have half : bits.testBit ∘ Nat.succ = (bits / 2).testBit := funext fun i => Nat.testBit_succ bits i
  rw [half, Nat.testBit_zero]
  rcases Nat.mod_two_eq_zero_or_one bits with even | odd
  · rw [even]
    rfl
  · rw [odd]
    rfl

theorem count_toDigits_two {bits width : Nat} (fits : bits < 2 ^ width) :
    (Nat.toDigits 2 bits).count '1' = (List.range width).countP bits.testBit := by
  induction width generalizing bits with
  | zero =>
      rw [Nat.lt_one_iff.mp fits]
      rfl
  | succ width ih =>
      have half : bits / 2 < 2 ^ width := by
        rw [Nat.pow_succ] at fits
        omega
      rw [countP_testBit_succ, ← ih half]
      by_cases short : bits < 2
      · have cases : bits = 0 ∨ bits = 1 := by omega
        rcases cases with rfl | rfl <;> decide
      · rw [Nat.toDigits_of_base_le (by decide) (Nat.le_of_not_lt short), List.count_append]
        rcases Nat.mod_two_eq_zero_or_one bits with even | odd
        · rw [even]
          rfl
        · rw [odd]
          rfl

/-- Counted from the left, every number up to the total is reached somewhere. -/
theorem exists_countP_range {p : Nat → Bool} {width rank : Nat} (positive : 0 < rank)
    (bound : rank ≤ (List.range width).countP p) :
    ∃ index, index < width ∧ (List.range (index + 1)).countP p = rank := by
  induction width with
  | zero => exact absurd bound (by rw [List.range_zero, List.countP_nil]; omega)
  | succ width ih =>
      by_cases before : rank ≤ (List.range width).countP p
      · obtain ⟨index, inside, reached⟩ := ih before
        exact ⟨index, Nat.lt_succ_of_lt inside, reached⟩
      · refine ⟨width, Nat.lt_succ_self width, ?_⟩
        rw [List.range_succ, List.countP_append, List.countP_singleton] at bound ⊢
        by_cases last : p width = true
        · rw [if_pos last] at bound ⊢
          omega
        · rw [if_neg last] at bound
          exact absurd bound before

namespace Mask

variable {mask : Mask} {rank index : Nat}

theorem count_eq (mask : Mask) :
    mask.count = (List.range mask.vocabulary.width).countP mask.test :=
  count_toDigits_two mask.fits

theorem rankThrough_eq (mask : Mask) (index : Nat) :
    mask.rankThrough index = (List.range index).countP mask.test + (mask.test index).toNat := by
  rw [rankThrough, List.range_succ, List.countP_append, List.countP_singleton]
  cases mask.test index <;> rfl

/-- The bit of a rank is set, and one less than the rank are set before it. -/
theorem select?_eq_some (positive : 0 < rank) (found : mask.select? rank = some index) :
    index < mask.vocabulary.width ∧ mask.test index = true ∧
      (List.range index).countP mask.test + 1 = rank := by
  obtain ⟨reached, inside, first⟩ := List.find?_range_eq_some.mp found
  have reached : mask.rankThrough index = rank := Int.ofNat.inj (of_decide_eq_true reached)
  have isSet : mask.test index = true := by
    cases test : mask.test index with
    | true => rfl
    | false =>
        -- Otherwise the rank would have been reached before.
        rw [rankThrough_eq, test] at reached
        cases index with
        | zero => exact absurd reached (Nat.ne_of_lt positive)
        | succ before =>
            have early : mask.rankThrough before = rank := reached
            simpa [early] using first before (Nat.lt_succ_self before)
  refine ⟨List.mem_range.mp inside, isSet, ?_⟩
  rw [rankThrough_eq, isSet] at reached
  exact reached

theorem exists_select? (positive : 0 < rank) (bound : rank ≤ mask.count) :
    ∃ index, mask.select? rank = some index := by
  rw [count_eq] at bound
  obtain ⟨index, inside, reached⟩ := exists_countP_range positive bound
  apply Option.isSome_iff_exists.mp
  refine List.find?_isSome.mpr ⟨index, List.mem_range.mpr inside, ?_⟩
  rw [rankThrough, reached]
  exact decide_eq_true rfl

theorem lt_width_of_test (isSet : mask.test index = true) : index < mask.vocabulary.width := by
  by_cases inside : index < mask.vocabulary.width
  · exact inside
  · have large := Nat.pow_le_pow_right Nat.two_pos (Nat.le_of_not_lt inside)
    rw [test, Nat.testBit_lt_two_pow (Nat.lt_of_lt_of_le mask.fits large)] at isSet
    cases isSet

theorem count_pos (nonempty : mask.isEmpty = false) : 0 < mask.count := by
  have nonzero : mask.bits ≠ 0 := by simpa [isEmpty] using nonempty
  obtain ⟨index, isSet⟩ := Nat.exists_testBit_of_ne_zero nonzero
  rw [count_eq]
  exact List.countP_pos_iff.mpr ⟨index, List.mem_range.mpr (lt_width_of_test isSet), isSet⟩

end Mask
end CExpr
