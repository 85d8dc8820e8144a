import CExpr.Draw.Sources
import CExpr.Proofs.Mask.Rank
import Mathlib.Data.List.Sort
import Mathlib.Order.Hom.Set

/-!
Picking a set bit of a mask over a vocabulary of any size. One integer is asked for, from one to the
number of set bits, and the ranks that it can be correspond to the set bits one to one and in their
order: the bit of a rank is the one with one less than the rank set below it.
-/
namespace CExpr

namespace Mask

abbrev Rank (mask : Mask) : Type := { rank : Int // 1 ≤ rank ∧ rank ≤ mask.count }

abbrev SetBit (mask : Mask) : Type :=
  { index : Nat // index < mask.vocabulary.width ∧ mask.test index = true }

variable {mask : Mask}

def rankBelow (mask : Mask) (index : Nat) : Nat := (List.range index).countP mask.test

theorem rankBelow_mono {low high : Nat} (ordered : low ≤ high) :
    mask.rankBelow low ≤ mask.rankBelow high :=
  (List.range_sublist.mpr ordered).countP_le

theorem rankBelow_succ {index : Nat} (isSet : mask.test index = true) :
    mask.rankBelow (index + 1) = mask.rankBelow index + 1 := by
  rw [rankBelow, List.range_succ, List.countP_append, List.countP_singleton, if_pos isSet]
  rfl

theorem rankBelow_lt {low high : Nat} (isSet : mask.test low = true) (before : low < high) :
    mask.rankBelow low < mask.rankBelow high :=
  calc mask.rankBelow low < mask.rankBelow (low + 1) := by
        rw [rankBelow_succ isSet]
        exact Nat.lt_succ_self _
    _ ≤ mask.rankBelow high := rankBelow_mono before

theorem exists_select?_rank (rank : mask.Rank) :
    ∃ bit : mask.SetBit, mask.select? rank = some bit.val ∧
      (mask.rankBelow bit : Int) = rank - 1 := by
  obtain ⟨rank, least, most⟩ := rank
  obtain ⟨count, rfl⟩ := Int.eq_ofNat_of_zero_le (Int.le_trans (by decide) least)
  have positive : 0 < count := Int.ofNat_le.mp least
  obtain ⟨index, found⟩ := exists_select? positive (Int.ofNat_le.mp most)
  obtain ⟨inside, isSet, below⟩ := select?_eq_some positive found
  refine ⟨⟨index, inside, isSet⟩, found, ?_⟩
  change ((List.range index).countP mask.test : Int) = count - 1
  omega

theorem select?_isSome (rank : mask.Rank) : (mask.select? rank).isSome = true := by
  obtain ⟨bit, found, _⟩ := exists_select?_rank rank
  rw [found]
  rfl

def bitOfRank (mask : Mask) (rank : mask.Rank) : mask.SetBit :=
  ⟨(mask.select? rank).get (select?_isSome rank), by
    obtain ⟨bit, found, _⟩ := exists_select?_rank rank
    simp only [found, Option.get_some]
    exact bit.property⟩

theorem select?_rank (rank : mask.Rank) : mask.select? rank = some (mask.bitOfRank rank).val :=
  (Option.some_get (select?_isSome rank)).symm

theorem rankBelow_bitOfRank (rank : mask.Rank) :
    (mask.rankBelow (mask.bitOfRank rank) : Int) = rank - 1 := by
  obtain ⟨bit, found, below⟩ := exists_select?_rank rank
  have same := Option.some.inj ((select?_rank rank).symm.trans found)
  rw [same]
  exact below

theorem bitOfRank_lt {low high : mask.Rank} (before : low < high) :
    mask.bitOfRank low < mask.bitOfRank high := by
  refine lt_of_not_ge fun behind => ?_
  have ranks : low.val < high.val := before
  have below := @rankBelow_mono mask _ _ behind
  have first := rankBelow_bitOfRank low
  have second := rankBelow_bitOfRank high
  omega

theorem bitOfRank_surjective : Function.Surjective mask.bitOfRank := by
  rintro ⟨index, inside, isSet⟩
  have whole : mask.rankBelow index < mask.count := by
    rw [count_eq]
    exact rankBelow_lt isSet inside
  let rank : mask.Rank := ⟨mask.rankBelow index + 1, by omega, by omega⟩
  refine ⟨rank, Subtype.ext ?_⟩
  have below := rankBelow_bitOfRank rank
  have same : mask.rankBelow (mask.bitOfRank rank) = mask.rankBelow index := by
    change _ = (mask.rankBelow index + 1 : Int) - 1 at below
    omega
  rcases Nat.lt_trichotomy (mask.bitOfRank rank).val index with before | equal | behind
  · have strict := rankBelow_lt (mask.bitOfRank rank).property.2 before
    omega
  · exact equal
  · have strict := rankBelow_lt isSet behind
    omega

noncomputable def rankIso (mask : Mask) : mask.Rank ≃o mask.SetBit :=
  StrictMono.orderIsoOfSurjective _ (fun _ _ => bitOfRank_lt) bitOfRank_surjective

/-- As the rank counts up, the bits picked are the positions of the mask in turn. -/
theorem map_select?_ranks (mask : Mask) :
    ((List.range mask.count).map fun before : Nat => mask.select? (before + 1)) =
      mask.positions.map some := by
  let bit (before : Fin mask.count) : Nat :=
    mask.bitOfRank ⟨(before : Nat) + 1, by omega, by omega⟩
  have picked : ((List.range mask.count).map fun before : Nat => mask.select? (before + 1)) =
      (List.ofFn bit).map some := by
    apply List.ext_getElem
    · simp
    · intro before inside _
      have bound : before < mask.count := by simpa using inside
      have found := @select?_rank mask ⟨(before : Nat) + 1, by omega, by omega⟩
      simpa [bit] using found
  have ascending : StrictMono bit := fun low high before =>
    bitOfRank_lt (Subtype.mk_lt_mk.mpr (by omega))
  have same : List.ofFn bit = mask.positions := by
    refine List.SortedLT.eq_of_mem_iff (List.sortedLT_ofFn_iff.mpr ascending)
      (List.pairwise_lt_range.filter _).sortedLT fun index => ?_
    rw [List.mem_ofFn, positions, List.mem_filter, List.mem_range]
    constructor
    · rintro ⟨before, rfl⟩
      exact (mask.bitOfRank _).property
    · intro isSet
      obtain ⟨⟨rank, least, most⟩, here⟩ := bitOfRank_surjective ⟨index, isSet⟩
      refine ⟨⟨(rank - 1).toNat, by omega⟩, ?_⟩
      have same : (((rank - 1).toNat : Nat) + 1 : Int) = rank := by omega
      simp only [bit, same]
      exact congrArg Subtype.val here
  rw [picked, same]

theorem count_eq_positions (mask : Mask) : mask.count = mask.positions.length := by
  rw [count_eq, positions, List.countP_eq_length_filter]

end Mask

namespace Engine

variable {σ : Type}

theorem pickBit_eq (engine : Engine σ) {mask : Mask} (nonempty : mask.isEmpty = false) (s : σ) :
    engine.pickBit mask s =
      match mask.select? (engine.integer 1 mask.count s).1 with
      | some index => (.ok index, (engine.integer 1 mask.count s).2)
      | none => (.error (.rankOutside (engine.integer 1 mask.count s).1 mask.count),
          (engine.integer 1 mask.count s).2) := by
  have whole : engine.pickBit mask =
      take (engine.integer 1 mask.count) >>= fun rank =>
        match mask.select? rank with
        | some index => pure index
        | none => .fail (.rankOutside rank mask.count) := if_neg (Bool.eq_false_iff.mp nonempty)
  rw [whole]
  change Draw.bind _ _ s = _
  unfold Draw.bind take
  dsimp only
  cases mask.select? (engine.integer 1 mask.count s).1 <;> rfl

/-- A bit of a mask that is not empty is picked with one integer from one to the number of set bits. The
ranks that this can be lead to the set bits one to one and in their order, each to the bit with one less
than the rank set below it; so all ranks in turn lead to all positions in turn. -/
theorem pickBit_iso (mask : Mask) (nonempty : mask.isEmpty = false) :
    mask.count = mask.positions.length ∧
      ((List.range mask.count).map fun before : Nat => mask.select? (before + 1)) =
        mask.positions.map some ∧
      ∃ bits : mask.Rank ≃o mask.SetBit,
        (∀ rank, (mask.rankBelow (bits rank) : Int) = rank - 1) ∧
        ∀ (σ : Type) (engine : Engine σ) (s : σ) (calls : List EngineCall),
          (engine.watched.pickBit mask (s, calls)).2 =
            ((engine.integer 1 mask.count s).2, calls ++ [.integer 1 mask.count]) ∧
          ∀ rank : mask.Rank, (engine.integer 1 mask.count s).1 = rank →
            (engine.watched.pickBit mask (s, calls)).1 = .ok (bits rank).val := by
  refine ⟨mask.count_eq_positions, mask.map_select?_ranks, mask.rankIso, Mask.rankBelow_bitOfRank, ?_⟩
  intro σ engine s calls
  have drawn : engine.watched.integer 1 mask.count (s, calls) =
      ((engine.integer 1 mask.count s).1, (engine.integer 1 mask.count s).2,
        calls ++ [.integer 1 mask.count]) := rfl
  rw [pickBit_eq _ nonempty, drawn]
  constructor
  · dsimp only
    cases mask.select? (engine.integer 1 mask.count s).1 <;> rfl
  · intro rank same
    rw [same, Mask.select?_rank]
    rfl

/-- A mask over six names with gaps below, between and above its three bits. -/
theorem pickBit_iso_gaps :
    let days : Vocabulary := .listed "Day" ["Mon", "Tue", "Wed", "Thu", "Fri", "Sat"]
    let mask : Mask := ⟨days, 0b10110, by decide⟩
    mask.isEmpty = false ∧ mask.count = 3 ∧
      [mask.select? 1, mask.select? 2, mask.select? 3] = [some 1, some 2, some 4] := by
  intro days mask
  have nonempty : mask.isEmpty = false := by decide
  obtain ⟨count, ranks, _⟩ := pickBit_iso mask nonempty
  have positions : mask.positions = [1, 2, 4] := by decide
  rw [positions] at count ranks
  refine ⟨nonempty, count, ?_⟩
  rw [count] at ranks
  exact ranks

end Engine
end CExpr
