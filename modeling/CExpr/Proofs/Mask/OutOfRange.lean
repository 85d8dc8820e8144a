import CExpr.Proofs.Mask.Selection

/-!
Ranks that a mask does not have. A rank is never compared with the number of set bits: it is refused if
the scan of the mask ends without having come to it. The scan counts at places without a set bit, too, so
where the lowest bit is not set it comes to zero at once, and zero picks that bit. Every other rank that a
mask does not have is refused, whatever its bits are.
-/
namespace CExpr

namespace Mask

variable {mask : Mask} {rank : Int} {index : Nat}

theorem rankThrough_le_count (inside : index < mask.vocabulary.width) :
    mask.rankThrough index ≤ mask.count := by
  rw [count_eq]
  exact rankBelow_mono inside

theorem rankThrough_pos (isSet : mask.test 0 = true) (index : Nat) : 0 < mask.rankThrough index :=
  calc 0 ≤ mask.rankBelow 0 := Nat.zero_le _
    _ < mask.rankBelow (index + 1) := rankBelow_lt isSet (Nat.succ_pos index)

theorem select?_zero (unset : mask.test 0 = false) (wide : 0 < mask.vocabulary.width) :
    mask.select? 0 = some 0 := by
  have reached : mask.rankThrough 0 = 0 := by
    rw [rankThrough_eq, unset]
    rfl
  refine List.find?_range_eq_some.mpr ⟨?_, List.mem_range.mpr wide, nofun⟩
  rw [reached]
  rfl

theorem select?_eq_none (stray : ¬(1 ≤ rank ∧ rank ≤ mask.count))
    (counted : rank ≠ 0 ∨ mask.test 0 = true) : mask.select? rank = none := by
  refine List.find?_eq_none.mpr fun index inside reached => ?_
  have most := rankThrough_le_count (List.mem_range.mp inside)
  have same : (mask.rankThrough index : Int) = rank := of_decide_eq_true reached
  -- What has been counted is a rank of the mask, unless it is nothing.
  have null : rank = 0 := by omega
  rcases counted with nonzero | isSet
  · exact nonzero null
  · have := rankThrough_pos isSet index
    omega

theorem width_pos (nonempty : mask.isEmpty = false) : 0 < mask.vocabulary.width := by
  refine Nat.pos_of_ne_zero fun narrow => ?_
  have fits := mask.fits
  rw [narrow, Nat.pow_zero, Nat.lt_one_iff] at fits
  rw [isEmpty, fits] at nonempty
  cases nonempty

end Mask

namespace Engine

variable {σ : Type}

def ofInteger (value : Int) : Engine Unit where
  unit s := (.zero false, s)
  integer _ _ s := (value, s)
  real lo _ s := (lo, s)

/-- A number that is no rank of the mask is refused, with a message that tells it, exactly if it is not zero
or the lowest bit is set. Zero picks the lowest bit otherwise, although it is not in the mask. -/
theorem pickBit_refuses_iff (engine : Engine σ) {mask : Mask} (nonempty : mask.isEmpty = false) (s : σ)
    {rank : Int} (drawn : (engine.integer 1 mask.count s).1 = rank)
    (stray : ¬(1 ≤ rank ∧ rank ≤ mask.count)) :
    let after := (engine.integer 1 mask.count s).2
    let refusal := DrawError.rankOutside rank mask.count
    refusal.message = s!"draw {rank} outside [1, {mask.count}]" ∧
      (engine.pickBit mask s = (.error refusal, after) ↔ rank ≠ 0 ∨ mask.test 0 = true) ∧
      (rank = 0 → mask.test 0 = false → engine.pickBit mask s = (.ok 0, after)) := by
  intro after refusal
  have picked := pickBit_eq engine nonempty s
  rw [drawn] at picked
  have lowest (null : rank = 0) (unset : mask.test 0 = false) :
      engine.pickBit mask s = (.ok 0, after) := by
    rw [picked, null, Mask.select?_zero unset (Mask.width_pos nonempty)]
  refine ⟨rfl, ⟨fun refused => ?_, fun counted => ?_⟩, lowest⟩
  · by_contra uncounted
    obtain ⟨null, unset⟩ := not_or.mp uncounted
    have same := lowest (not_not.mp null) (Bool.eq_false_iff.mpr unset)
    cases same.symm.trans refused
  · rw [picked, Mask.select?_eq_none stray counted]

/-- A number that is too large for a mask of three bits, the lowest of which is not set. -/
theorem pickBit_refuses_iff_large :
    let mask : Mask := ⟨.binOp, 0b10110, by decide⟩
    let refusal := DrawError.rankOutside 4 mask.count
    mask.isEmpty = false ∧ ¬((1 : Int) ≤ 4 ∧ (4 : Int) ≤ mask.count) ∧
      (ofInteger 4).pickBit mask () = (.error refusal, ()) ∧
      refusal.message = "draw 4 outside [1, 3]" := by
  intro mask refusal
  have nonempty : mask.isEmpty = false := by decide
  have stray : ¬((1 : Int) ≤ 4 ∧ (4 : Int) ≤ mask.count) := by decide
  obtain ⟨told, refuses, _⟩ := @pickBit_refuses_iff Unit (ofInteger 4) mask nonempty () 4 rfl stray
  exact ⟨nonempty, stray, refuses.mpr (.inl (by decide)), told.trans (by decide)⟩

/-- Zero is no rank of the mask of the second operator alone, and it picks the first one. -/
theorem not_forall_pickBit_refuses :
    ¬∀ (mask : Mask) (rank : Int), mask.isEmpty = false → ¬(1 ≤ rank ∧ rank ≤ mask.count) →
      ∃ e, ((ofInteger rank).pickBit mask ()).1 = .error e := by
  intro always
  let mask : Mask := ⟨.binOp, 0b10, by decide⟩
  have picked : ((ofInteger 0).pickBit mask ()).1 = .ok 0 := by decide
  obtain ⟨e, refused⟩ := always mask 0 (by decide) (by decide)
  cases picked.symm.trans refused

end Engine
end CExpr
