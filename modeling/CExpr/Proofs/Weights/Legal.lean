import CExpr.Proofs.Config.Valid
import CExpr.Proofs.Double.Order

/-!
Weights of a legal configuration never become illegal. The initial weights pass their check, and a
weight that is multiplied by a dampening factor stays what a weight has to be.
-/
namespace CExpr

namespace Double

/-- A factor that dampens is a positive number up to one, so it is finite and has no sign. -/
theorem exists_of_isDampening {factor : Double} (dampens : Config.isDampening factor = true) :
    ∃ units fits, factor = finite false units fits ∧ units ≠ 0 := by
  simp only [Config.isDampening, Bool.and_eq_true] at dampens
  obtain ⟨positive, bounded⟩ := dampens
  cases factor with
  | nan => cases positive
  | infinite negative =>
      cases negative with
      | false => exact absurd bounded (by decide +kernel)
      | true => cases positive
  | finite negative units fits =>
      have above : (0 : Int) < signedUnits negative units := of_decide_eq_true positive
      cases negative with
      | false =>
          have sign : signedUnits false units = units := rfl
          exact ⟨units, fits, rfl, by omega⟩
      | true =>
          have sign : signedUnits true units = -(units : Int) := rfl
          omega

theorem mul_isNonnegative {x factor : Double} (legal : x.isNonnegative = true)
    (dampens : Config.isDampening factor = true) : (x.mul factor).isNonnegative = true := by
  obtain ⟨units, fits, rfl, nonzero⟩ := exists_of_isDampening dampens
  cases x with
  | nan => cases legal
  -- A factor of zero would have made this one no number.
  | infinite negative =>
      cases isNonnegative_infinite.mp legal
      rw [mul, if_neg nonzero]
      rfl
  | finite negative count countFits =>
      rw [mul]
      apply ofUnits_isNonnegative
      intro minus
      cases negative with
      | false => cases minus
      | true => rw [isNonnegative_finite.mp legal rfl, Nat.zero_mul]

end Double

namespace Weights

theorem scale_ok (weights : Weights) (slot : WeightSlot) {factor : Double}
    (dampens : Config.isDampening factor = true) :
    ∃ dampened, weights.scale slot factor = .ok dampened := by
  have legal : (weights.get slot).isNonnegative = true := by
    cases slot with
    | expr kind => exact weights.expr[kind.index].property
    | type kind => exact weights.type[kind.index].property
  have product := Double.mul_isNonnegative legal dampens
  unfold scale set Weight.check
  rw [dif_pos product]
  exact ⟨_, rfl⟩

theorem mapM_check_list {values : List Double}
    (legal : ∀ value ∈ values, value.isNonnegative = true) :
    ∃ weights, values.mapM Weight.check = .ok weights ∧ weights.map (·.val) = values := by
  induction values with
  | nil => exact ⟨[], rfl, rfl⟩
  | cons value rest ih =>
      obtain ⟨weights, checked, same⟩ :=
        ih fun other member => legal other (List.mem_cons_of_mem _ member)
      have first : Weight.check value = .ok ⟨value, legal value List.mem_cons_self⟩ :=
        dif_pos (legal value List.mem_cons_self)
      refine ⟨⟨value, legal value List.mem_cons_self⟩ :: weights, ?_, by rw [List.map_cons, same]⟩
      rw [List.mapM_cons, first, checked]
      rfl

theorem toList_mapM_check {count : Nat} (values : Vector Double count) :
    (values.mapM Weight.check).map Vector.toList = values.toList.mapM Weight.check := by
  have arrays : Vector.toArray <$> values.mapM Weight.check = values.toArray.mapM Weight.check :=
    Vector.toArray_mapM
  have lists : Array.toList <$> values.toArray.mapM Weight.check =
      values.toArray.toList.mapM Weight.check := Array.toList_mapM
  rw [← arrays] at lists
  refine Eq.trans ?_ lists
  cases values.mapM Weight.check <;> rfl

theorem mapM_check {count : Nat} {values : Vector Double count}
    (legal : ∀ value ∈ values.toList, value.isNonnegative = true) :
    ∃ weights, values.mapM Weight.check = .ok weights ∧
      weights.toList.map (·.val) = values.toList := by
  obtain ⟨list, checked, same⟩ := mapM_check_list legal
  have lists := (toList_mapM_check values).trans checked
  cases outcome : values.mapM Weight.check with
  | error e =>
      rw [outcome] at lists
      cases lists
  | ok weights =>
      rw [outcome] at lists
      cases lists
      exact ⟨weights, rfl, same⟩

theorem ofLists_ok {exprs types : List Double} (exprCount : exprs.length = 5)
    (typeCount : types.length = 3) (exprsLegal : ∀ value ∈ exprs, value.isNonnegative = true)
    (typesLegal : ∀ value ∈ types, value.isNonnegative = true) :
    ∃ weights, ofLists (some exprs) (some types) = .ok weights ∧ weights.exprList = exprs ∧
      weights.typeList = types := by
  obtain ⟨expr, exprChecked, sameExpr⟩ :=
    @mapM_check 5 ⟨exprs.toArray, exprCount⟩ exprsLegal
  obtain ⟨type, typeChecked, sameType⟩ :=
    @mapM_check 3 ⟨types.toArray, typeCount⟩ typesLegal
  refine ⟨⟨expr, type⟩, ?_, sameExpr, sameType⟩
  simp only [ofLists, Option.getD_some]
  rw [dif_pos exprCount, dif_pos typeCount, exprChecked, typeChecked]
  rfl

theorem ofLists_lists (weights : Weights) :
    ofLists (some weights.exprList) (some weights.typeList) = .ok weights := by
  have legal : ∀ {checked : List Weight}, ∀ value ∈ checked.map (·.val),
      value.isNonnegative = true := by
    intro checked value among
    obtain ⟨weight, _, rfl⟩ := List.mem_map.mp among
    exact weight.property
  have values : ∀ {first second : List Weight}, first.map (·.val) = second.map (·.val) →
      first = second := (List.map_inj_right fun _ _ => Subtype.ext).mp
  obtain ⟨copy, made, exprs, types⟩ := @ofLists_ok weights.exprList weights.typeList
    (by rw [exprList, List.length_map, Vector.length_toList])
    (by rw [typeList, List.length_map, Vector.length_toList]) legal legal
  rw [made]
  obtain ⟨expr, type⟩ := weights
  obtain ⟨copyExpr, copyType⟩ := copy
  cases Vector.toList_inj.mp (values exprs)
  cases Vector.toList_inj.mp (values types)
  rfl

/-- The weights of a legal configuration are its initial weights. -/
theorem ofConfig_ok {config : Config} (legal : config.Legal) :
    ∃ weights, ofConfig config = .ok weights ∧
      weights.exprList = config.exprKinds.map (·.initial) ∧
      weights.typeList = config.typeKinds.map (·.initial) := by
  have initial : ∀ table, config.LegalTable table →
      ∀ value ∈ (table.entries config).map (·.initial), value.isNonnegative = true := by
    intro table legalTable value member
    obtain ⟨entry, inTable, rfl⟩ := List.mem_map.mp member
    exact legalTable.nonnegative entry inTable
  apply ofLists_ok
  · rw [List.length_map]
    exact legal.exprKinds.complete
  · rw [List.length_map]
    exact legal.typeKinds.complete
  · exact initial .exprKinds legal.exprKinds
  · exact initial .typeKinds legal.typeKinds

end Weights
end CExpr
