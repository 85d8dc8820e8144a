import CExpr.Config.Basic
import CExpr.Weights.Basic

/-!
Slots of weights: the list of the weights for expressions is what can be had kind by kind, and a
change of one slot leaves the others as they were. A slot is an index into one of the two lists of
weights.
-/
namespace CExpr

namespace WeightSlot

def table : WeightSlot → WeightTable
  | expr _ => .exprKinds
  | type _ => .typeKinds

def index : WeightSlot → Nat
  | expr kind => kind.index
  | type kind => kind.index

theorem index_lt (kind : WeightSlot) : kind.index < kind.table.vocabulary.width := by
  cases kind with
  | expr kind => exact kind.index.isLt
  | type kind => exact kind.index.isLt

end WeightSlot

theorem Weight.val_of_check {value : Double} {weight : Weight}
    (checked : Weight.check value = .ok weight) : weight.val = value := by
  unfold Weight.check at checked
  split at checked
  · cases checked
    rfl
  · cases checked

theorem ExprKind.index_all_getElem : ∀ i (bound : i < all.length), all[i].index.val = i := by
  decide

theorem ExprKind.exists_index {place : Nat} (bound : place < 5) :
    ∃ kind : ExprKind, kind.index.val = place :=
  ⟨all[place], index_all_getElem place bound⟩

namespace Weights

theorem exprList_eq (weights : Weights) :
    weights.exprList = ExprKind.all.map fun kind => weights.get (.expr kind) := by
  apply List.ext_getElem
  · rw [exprList, List.length_map, Vector.length_toList, List.length_map]
    rfl
  · intro i _ bound
    rw [List.length_map] at bound
    have index : ExprKind.all[i].index.val = i := ExprKind.index_all_getElem i bound
    simp [exprList, get, index]

theorem set_eq_ok {weights after : Weights} {kind : ExprKind} {value : Double}
    (replaced : weights.set (.expr kind) value = .ok after) :
    ∃ weight : Weight, weight.val = value ∧
      after = { weights with expr := weights.expr.set kind.index weight kind.index.isLt } := by
  unfold set Weight.check at replaced
  by_cases legal : value.isNonnegative = true
  · rw [dif_pos legal] at replaced
    exact ⟨⟨value, legal⟩, rfl, (Except.ok.inj replaced).symm⟩
  · rw [dif_neg legal] at replaced
    cases replaced

theorem get_scale {weights dampened : Weights} {kind : ExprKind} {factor : Double}
    (scaled : weights.scale (.expr kind) factor = .ok dampened) (other : ExprKind) :
    dampened.get (.expr other) =
      if kind = other then (weights.get (.expr other)).mul factor
      else weights.get (.expr other) := by
  obtain ⟨weight, same, rfl⟩ := set_eq_ok scaled
  by_cases chosen : kind = other
  · subst chosen
    rw [if_pos rfl, ← same, get, Fin.getElem_fin, Vector.getElem_set_self]
  · have apart : kind.index.val ≠ other.index.val := by
      intro equal
      have found := other.all_getElem?_index
      rw [← equal, kind.all_getElem?_index] at found
      exact chosen (Option.some.inj found)
    rw [if_neg chosen, get, Fin.getElem_fin, Vector.getElem_set_ne _ _ apart]
    rfl

/-! ### Slots as indices -/

def list (weights : Weights) : WeightTable → List Double
  | .exprKinds => weights.exprList
  | .typeKinds => weights.typeList

theorem length_list (weights : Weights) (table : WeightTable) :
    (weights.list table).length = table.vocabulary.width := by
  cases table <;> simp [list, exprList, typeList] <;> rfl

theorem isNonnegative_of_mem_list {weights : Weights} {table : WeightTable} {value : Double}
    (member : value ∈ weights.list table) : value.isNonnegative = true := by
  have legal : ∀ {checked : List Weight}, value ∈ checked.map (·.val) →
      value.isNonnegative = true := by
    intro checked among
    obtain ⟨weight, _, rfl⟩ := List.mem_map.mp among
    exact weight.property
  cases table with
  | exprKinds => exact legal member
  | typeKinds => exact legal member

theorem getElem?_list (weights : Weights) (slot : WeightSlot) :
    (weights.list slot.table)[slot.index]? = some (weights.get slot) := by
  cases slot <;> simp [WeightSlot.table, WeightSlot.index, list, exprList, typeList, get]

theorem list_set {weights after : Weights} {slot : WeightSlot} {value : Double}
    (replaced : weights.set slot value = .ok after) (table : WeightTable) :
    after.list table = if slot.table = table then (weights.list table).set slot.index value
      else weights.list table := by
  unfold set at replaced
  cases checked : Weight.check value with
  | error e =>
      rw [checked] at replaced
      cases replaced
  | ok weight =>
      rw [checked] at replaced
      cases replaced
      rw [← Weight.val_of_check checked]
      cases slot <;> cases table <;>
        simp [WeightSlot.table, WeightSlot.index, list, exprList, typeList, Vector.toList_set,
          List.map_set]

end Weights
end CExpr
