import CExpr.Proofs.Outcome
import CExpr.Proofs.Weights.Slots
import CExpr.Weights.Registers

/-!
Registers before and after a step: a step that succeeds changes no weight but those it is about, which
are one slot of one register, or all of a register that gets new weights.
-/
namespace CExpr

def RegisterStep.Addresses : RegisterStep → String → WeightTable → Nat → Prop
  | build register _ _, other, _, _ | configure register _, other, _, _
  | copy register _, other, _, _ => register = other
  | set register member _, other, table, index | scale register member _, other, table, index =>
    register = other ∧ ∃ slot, member.slot? = some slot ∧ slot.table = table ∧ slot.index = index
  | _, _, _, _ => False

theorem lookup_replace {α : Type} (entries : List (String × α)) (register other : String) (a : α) :
    ((register, a) :: entries.filter (·.1 ≠ register)).lookup other =
      if register = other then some a else entries.lookup other := by
  by_cases same : register = other
  · subst same
    simp
  · have apart : (other == register) = false := beq_eq_false_iff_ne.mpr (Ne.symm same)
    rw [if_neg same, List.lookup_cons, apart]
    induction entries with
    | nil => rfl
    | cons entry rest ih =>
        obtain ⟨name, held⟩ := entry
        by_cases replaced : name = register
        · subst replaced
          rw [List.filter_cons_of_neg (by simp), List.lookup_cons, apart]
          exact ih
        · rw [List.filter_cons_of_pos (by simpa using replaced), List.lookup_cons, List.lookup_cons]
          cases other == name with
          | true => rfl
          | false => exact ih

namespace Registers

def contents (registers : Registers) (register : String) (table : WeightTable) :
    Option (List Double) :=
  (registers.lookup register).map (·.list table)

def weight? (registers : Registers) (register : String) (table : WeightTable) (index : Nat) :
    Option Double :=
  (registers.contents register table).bind (·[index]?)

variable {registers : Registers}

theorem contents_write (registers : Registers) (register other : String) (weights : Weights)
    (table : WeightTable) :
    (registers.write register weights).contents other table =
      if register = other then some (weights.list table) else registers.contents other table := by
  unfold contents write
  rw [lookup_replace]
  split <;> rfl

theorem read_eq_ok {register : String} {weights : Weights} :
    registers.read register = .ok weights ↔ registers.lookup register = some weights := by
  unfold read
  cases registers.lookup register with
  | none => simp
  | some found => simp

theorem read_unset {register : String} (unset : registers.lookup register = none) :
    registers.read register = .error (.unset register) := by
  rw [read, unset]

theorem slot_eq_ok {member : Member} {slot : WeightSlot} :
    Registers.slot member = .ok slot ↔ member.slot? = some slot := by
  unfold Registers.slot
  cases member.slot? with
  | none => simp
  | some found => simp

theorem store_eq_ok {register : String} {outcome : Except WeightError Weights}
    {answer : RegisterAnswer} {after : Registers}
    (stored : registers.store register outcome = .ok (answer, after)) :
    ∃ weights, outcome = .ok weights ∧ after = registers.write register weights := by
  cases outcome with
  | error e => cases stored
  | ok weights =>
      cases stored
      exact ⟨weights, rfl, rfl⟩

theorem weight?_write_of_ne {register other : String} (apart : register ≠ other)
    (weights : Weights) (table : WeightTable) (index : Nat) :
    (registers.write register weights).weight? other table index =
      registers.weight? other table index := by
  rw [weight?, contents_write, if_neg apart]
  rfl

theorem weight?_set {register other : String} {weights after : Weights} {slot : WeightSlot}
    {value : Double} (held : registers.lookup register = some weights)
    (replaced : weights.set slot value = .ok after) {table : WeightTable} {index : Nat}
    (apart : ¬ (register = other ∧ slot.table = table ∧ slot.index = index)) :
    (registers.write register after).weight? other table index =
      registers.weight? other table index := by
  by_cases same : register = other
  · subst same
    rw [weight?, contents_write, if_pos rfl, weight?, contents, held, Weights.list_set replaced]
    by_cases sameTable : slot.table = table
    · have otherIndex : slot.index ≠ index := fun sameIndex => apart ⟨rfl, sameTable, sameIndex⟩
      rw [if_pos sameTable]
      exact List.getElem?_set_ne otherIndex
    · rw [if_neg sameTable]
      rfl
  · exact weight?_write_of_ne same after table index

theorem weight?_step {request : RegisterStep} {answer : RegisterAnswer} {after : Registers}
    (went : registers.step request = .ok (answer, after)) {other : String} {table : WeightTable}
    {index : Nat} (apart : ¬ request.Addresses other table index) :
    after.weight? other table index = registers.weight? other table index := by
  cases request with
  | build register exprs types =>
      obtain ⟨weights, _, rfl⟩ := store_eq_ok went
      exact weight?_write_of_ne apart weights table index
  | configure register config =>
      obtain ⟨weights, _, rfl⟩ := store_eq_ok went
      exact weight?_write_of_ne apart weights table index
  | copy register source =>
      obtain ⟨_, _, stored⟩ := bind_eq_ok.mp went
      obtain ⟨weights, _, rfl⟩ := store_eq_ok stored
      exact weight?_write_of_ne apart weights table index
  | set register member value =>
      obtain ⟨_, read, rest⟩ := bind_eq_ok.mp went
      obtain ⟨_, _, rest⟩ := bind_eq_ok.mp rest
      obtain ⟨slot, known, stored⟩ := bind_eq_ok.mp rest
      obtain ⟨_, replaced, rfl⟩ := store_eq_ok stored
      refine weight?_set (read_eq_ok.mp read) replaced fun ⟨same, place⟩ => apart ?_
      exact ⟨same, slot, slot_eq_ok.mp known, place⟩
  | scale register member factor =>
      obtain ⟨_, read, rest⟩ := bind_eq_ok.mp went
      obtain ⟨slot, known, stored⟩ := bind_eq_ok.mp rest
      obtain ⟨_, replaced, rfl⟩ := store_eq_ok stored
      refine weight?_set (read_eq_ok.mp read) replaced fun ⟨same, place⟩ => apart ?_
      exact ⟨same, slot, slot_eq_ok.mp known, place⟩
  | get register member =>
      obtain ⟨_, _, rest⟩ := bind_eq_ok.mp went
      obtain ⟨_, _, returned⟩ := bind_eq_ok.mp rest
      cases returned
      rfl
  | inspect register =>
      obtain ⟨_, _, returned⟩ := bind_eq_ok.mp went
      cases returned
      rfl
  | compare register other =>
      obtain ⟨_, _, rest⟩ := bind_eq_ok.mp went
      obtain ⟨_, _, returned⟩ := bind_eq_ok.mp rest
      cases returned
      rfl
  | compareList register values =>
      obtain ⟨_, _, returned⟩ := bind_eq_ok.mp went
      cases returned
      rfl

end Registers
end CExpr
