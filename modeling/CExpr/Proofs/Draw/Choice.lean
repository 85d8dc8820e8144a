import CExpr.Draw.Uniform
import CExpr.Proofs.Double.Product
import CExpr.Proofs.Draw.Outcome

/-!
The index that a weighted choice falls on. It is always the index of some weight, and of a positive
one whatever the rounding, since a weight that is not positive lifts the running sum over no value.
The smallest value falls on the first positive weight; a value that exceeds every running sum, as all
values do once the sum of the weights is infinite, falls on the last positive one.
-/
namespace CExpr

variable {weights : List Double} {value running : Double} {index : Nat}

theorem firstExceeding?_lt (found : firstExceeding? value running weights = some index) :
    index < weights.length := by
  induction weights generalizing running index with
  | nil => cases found
  | cons weight rest ih =>
      rw [firstExceeding?] at found
      split at found
      · cases found
        exact Nat.zero_lt_succ _
      · obtain ⟨behind, later, rfl⟩ := Option.map_eq_some_iff.mp found
        exact Nat.succ_lt_succ (ih later)

theorem firstExceeding?_zero {weight : Double} (nonnegative : ∀ w ∈ weights, w.isNonnegative = true)
    (start : running.isNonnegative = true) (stands : weights[index]? = some weight)
    (positive : weight.isPositive = true) :
    ∃ first ≤ index, firstExceeding? (.zero false) running weights = some first := by
  induction weights generalizing running index with
  | nil => cases stands
  | cons head rest ih =>
      have legal := Double.add_of_isNonnegative start (nonnegative head List.mem_cons_self)
      rw [firstExceeding?]
      by_cases exceeded : (running.add head).isPositive = true
      · exact ⟨0, Nat.zero_le _, if_pos exceeded⟩
      · cases index with
        | zero =>
            cases stands
            exact absurd (legal.2.mpr (.inr positive)) exceeded
        | succ index =>
            obtain ⟨first, bound, found⟩ := ih
              (fun w member => nonnegative w (List.mem_cons_of_mem _ member)) legal.1 stands
            refine ⟨first + 1, Nat.succ_le_succ bound, (if_neg exceeded).trans ?_⟩
            rw [found]
            rfl

theorem firstExceeding?_eq_none (beyond : ∀ sum, value.lt sum = false) :
    firstExceeding? value running weights = none := by
  induction weights generalizing running with
  | nil => rfl
  | cons weight rest ih =>
      rw [firstExceeding?, ih]
      exact if_neg (by rw [beyond]; exact Bool.false_ne_true)

/-- A running sum that was not above the value gets above it at a positive weight only. -/
theorem firstExceeding?_isPositive (nonnegative : ∀ w ∈ weights, w.isNonnegative = true)
    (start : running.isNonnegative = true) (below : value.lt running = false)
    (found : firstExceeding? value running weights = some index) :
    ∃ weight, weights[index]? = some weight ∧ weight.isPositive = true := by
  induction weights generalizing running index with
  | nil => cases found
  | cons head rest ih =>
      have legal := nonnegative head List.mem_cons_self
      rw [firstExceeding?] at found
      by_cases exceeded : value.lt (running.add head) = true
      · rw [if_pos exceeded] at found
        cases found
        refine ⟨head, rfl, eq_true_of_ne_false fun small => ?_⟩
        rw [Double.lt_add_of_not_isPositive start legal small, below] at exceeded
        cases exceeded
      · rw [if_neg exceeded] at found
        obtain ⟨behind, later, rfl⟩ := Option.map_eq_some_iff.mp found
        exact ih (fun w member => nonnegative w (List.mem_cons_of_mem _ member))
          (Double.add_of_isNonnegative start legal).1 (Bool.eq_false_iff.mpr exceeded) later

theorem lastPositive?_eq_some (found : lastPositive? weights = some index) :
    (∃ weight, weights[index]? = some weight ∧ weight.isPositive = true) ∧
      ∀ later weight, index < later → weights[later]? = some weight → weight.isPositive = false := by
  obtain ⟨⟨weight, place⟩, last, rfl⟩ := Option.map_eq_some_iff.mp found
  obtain ⟨positive, before, behind, split, others⟩ := List.find?_eq_some_iff_append.mp last
  -- Read forwards, what was searched first stands behind the weight that was found.
  have forwards : weights.zipIdx = behind.reverse ++ (weight, place) :: before.reverse := by
    rw [← List.reverse_reverse weights.zipIdx, split]
    simp
  have stands : ∀ place : Nat, weights.zipIdx[place]? = weights[place]?.map fun w => (w, place) := by
    simp [List.getElem?_zipIdx]
  have here : weights.zipIdx[behind.length]? = some (weight, place) := by
    rw [forwards, ← List.length_reverse, List.getElem?_append_right (Nat.le_refl _), Nat.sub_self]
    rfl
  rw [stands] at here
  obtain ⟨_, at_, same⟩ := Option.map_eq_some_iff.mp here
  cases same
  refine ⟨⟨weight, at_, positive⟩, fun later other behindIt found => ?_⟩
  have entry : weights.zipIdx[later]? = some (other, later) := by rw [stands, found]; rfl
  rw [forwards, List.getElem?_append_right (by rw [List.length_reverse]; omega),
    List.getElem?_cons, List.length_reverse, if_neg (by omega)] at entry
  have searched := others _ (List.mem_reverse.mp (List.mem_of_getElem? entry))
  simpa using searched

theorem lastPositive?_isSome (positive : ∃ weight ∈ weights, weight.isPositive = true) :
    ∃ index, lastPositive? weights = some index := by
  obtain ⟨weight, member, positive⟩ := positive
  have isSome : (weights.zipIdx.reverse.find? fun entry => entry.1.isPositive).isSome = true := by
    obtain ⟨place, stands⟩ := List.mem_iff_getElem?.mp member
    refine List.find?_isSome.mpr ⟨(weight, place), List.mem_reverse.mpr ?_, positive⟩
    apply List.mem_iff_getElem?.mpr
    exact ⟨place, by simp [List.getElem?_zipIdx, stands]⟩
  obtain ⟨entry, found⟩ := Option.isSome_iff_exists.mp isSome
  exact ⟨entry.2, by rw [lastPositive?, found]; rfl⟩

theorem lastPositive?_lt (found : lastPositive? weights = some index) : index < weights.length := by
  obtain ⟨⟨weight, stands, _⟩, _⟩ := lastPositive?_eq_some found
  exact (List.getElem?_eq_some_iff.mp stands).1

theorem indexAt_lt (nonempty : weights ≠ []) : indexAt weights value < weights.length := by
  unfold indexAt
  split
  · rename_i index found
    exact firstExceeding?_lt found
  · cases last : lastPositive? weights with
    | none => exact List.length_pos_iff.mpr nonempty
    | some index => exact lastPositive?_lt last

theorem indexAt_isPositive (nonnegative : ∀ w ∈ weights, w.isNonnegative = true)
    (above : value.lt (.zero false) = false)
    (positive : ∃ weight ∈ weights, weight.isPositive = true) :
    ∃ weight, weights[indexAt weights value]? = some weight ∧ weight.isPositive = true := by
  unfold indexAt
  split
  · rename_i index found
    exact firstExceeding?_isPositive nonnegative rfl above found
  · obtain ⟨index, found⟩ := lastPositive?_isSome positive
    rw [found]
    exact (lastPositive?_eq_some found).1

theorem indexAt_zero_le {weight : Double} (nonnegative : ∀ w ∈ weights, w.isNonnegative = true)
    (stands : weights[index]? = some weight) (positive : weight.isPositive = true) :
    indexAt weights (.zero false) ≤ index := by
  obtain ⟨first, bound, found⟩ := @firstExceeding?_zero _ (.zero false) _ _ nonnegative rfl stands positive
  rw [indexAt, found]
  exact bound

theorem indexAt_beyond (beyond : ∀ sum, value.lt sum = false)
    (positive : ∃ weight ∈ weights, weight.isPositive = true) :
    lastPositive? weights = some (indexAt weights value) := by
  obtain ⟨index, found⟩ := lastPositive?_isSome positive
  rw [indexAt, firstExceeding?_eq_none beyond, found]
  rfl

theorem firstExceeding?_le {higher : Double} {later : Nat} (ordered : value.le higher = true)
    (found : firstExceeding? higher running weights = some later) :
    ∃ first ≤ later, firstExceeding? value running weights = some first := by
  induction weights generalizing running later with
  | nil => cases found
  | cons weight rest ih =>
      rw [firstExceeding?] at found ⊢
      by_cases exceeded : value.lt (running.add weight) = true
      · exact ⟨0, Nat.zero_le _, if_pos exceeded⟩
      · have neither : ¬ higher.lt (running.add weight) = true :=
          fun above => exceeded (Double.lt_of_le_of_lt ordered above)
        rw [if_neg neither] at found
        obtain ⟨behind, more, rfl⟩ := Option.map_eq_some_iff.mp found
        obtain ⟨first, bound, least⟩ := ih more
        refine ⟨first + 1, Nat.succ_le_succ bound, ?_⟩
        rw [if_neg exceeded, least]
        rfl

/-- A larger value falls on the same weight or on a later one; where no running sum exceeds it, that is
the last positive one. -/
theorem indexAt_mono {higher : Double} (nonnegative : ∀ w ∈ weights, w.isNonnegative = true)
    (above : value.lt (.zero false) = false) (ordered : value.le higher = true)
    (positive : ∃ weight ∈ weights, weight.isPositive = true) :
    indexAt weights value ≤ indexAt weights higher := by
  cases found : firstExceeding? higher (.zero false) weights with
  | some later =>
      obtain ⟨first, bound, least⟩ := firstExceeding?_le ordered found
      rw [indexAt, indexAt, found, least]
      exact bound
  | none =>
      obtain ⟨last, final⟩ := lastPositive?_isSome positive
      have there : indexAt weights higher = last := by rw [indexAt, found, final]; rfl
      obtain ⟨weight, stands, chosen⟩ := indexAt_isPositive nonnegative above positive
      rw [there]
      refine Nat.le_of_not_lt fun behind => ?_
      rw [(lastPositive?_eq_some final).2 _ _ behind stands] at chosen
      cases chosen

namespace Engine

variable {σ : Type} {engine : Engine σ} {s : σ}

/-! What is refused is refused before a number is taken; otherwise one number is taken, which decides. -/

theorem weightedChoice_of_negative (illegal : ∃ weight ∈ weights, weight.isNonnegative = false) :
    engine.weightedChoice weights = .fail (.negativeWeight weights) := by
  obtain ⟨weight, member, negative⟩ := illegal
  have found : weights.any (!·.isNonnegative) = true :=
    List.any_eq_true.mpr ⟨weight, member, by rw [negative]; rfl⟩
  exact if_pos found

theorem any_negative_eq_false (nonnegative : ∀ weight ∈ weights, weight.isNonnegative = true) :
    weights.any (!·.isNonnegative) = false := by
  rw [List.any_eq_false]
  intro weight member
  simp [nonnegative weight member]

theorem weightedChoice_of_sum (nonnegative : ∀ weight ∈ weights, weight.isNonnegative = true)
    (small : (Double.sum weights).isPositive = false) :
    engine.weightedChoice weights = .fail .noPositiveWeight := by
  have bounded := (Double.le_zero_iff (Double.sum_isNonnegative nonnegative)).mpr small
  unfold weightedChoice
  dsimp only
  rw [if_neg (Bool.eq_false_iff.mp (any_negative_eq_false nonnegative)), if_pos bounded]

theorem weightedChoice_of_isPositive (nonnegative : ∀ weight ∈ weights, weight.isNonnegative = true)
    (positive : (Double.sum weights).isPositive = true) :
    engine.weightedChoice weights =
      take engine.unit >>= fun unit => pure (indexAt weights (unit.mul (Double.sum weights))) := by
  have enough : ¬ (Double.sum weights).le (.zero false) = true := by
    intro small
    rw [Double.le_zero_iff (Double.sum_isNonnegative nonnegative), positive] at small
    cases small
  unfold weightedChoice
  dsimp only
  rw [if_neg (Bool.eq_false_iff.mp (any_negative_eq_false nonnegative)), if_neg enough]

theorem choice_of_isPositive (nonnegative : ∀ weight ∈ weights, weight.isNonnegative = true)
    (positive : (Double.sum weights).isPositive = true) :
    engine.source.choice weights s =
      (.ok (indexAt weights ((engine.unit s).1.mul (Double.sum weights)) : Int),
        (engine.unit s).2) := by
  have whole : engine.source.choice weights =
      engine.weightedChoice weights >>= fun index => pure (index : Int) := rfl
  rw [whole, weightedChoice_of_isPositive nonnegative positive]
  rfl

theorem isPositive_of_choice {index : Int} {after : σ}
    (returned : engine.source.choice weights s = (.ok index, after)) :
    (∀ weight ∈ weights, weight.isNonnegative = true) ∧ (Double.sum weights).isPositive = true := by
  obtain ⟨place, middle, chosen, _⟩ := Draw.bind_eq_ok.mp returned
  have nonnegative : ∀ weight ∈ weights, weight.isNonnegative = true := by
    intro weight member
    refine eq_true_of_ne_false fun negative => ?_
    rw [weightedChoice_of_negative ⟨weight, member, negative⟩] at chosen
    cases chosen
  refine ⟨nonnegative, eq_true_of_ne_false fun small => ?_⟩
  rw [weightedChoice_of_sum nonnegative small] at chosen
  cases chosen

end Engine
end CExpr
