import CExpr.Config.Overlay
import CExpr.Proofs.Config.Valid
import CExpr.Proofs.Weights.Slots

/-!
The slots of a configuration: its numbers and masks, and for every kind its initial weight and its
factor. Slots are what a document writes to. The writes of a document are told from the document alone,
and what they make of a configuration is told slot by slot.
-/
namespace CExpr
open Json (Value)

inductive WeightPart
  | initial | dampening
  deriving DecidableEq

inductive ConfigSlot
  | integerMin | integerMax | doubleMin | doubleMax | binOps | unOps
  | parenthesize | const | volatile
  | weight (kind : WeightSlot) (part : WeightPart)
  deriving DecidableEq

inductive SlotContent
  | integer (value : Int)
  | double (value : Double)
  | mask (value : Mask)

namespace WeightPart

def all : List WeightPart := [initial, dampening]

def key : WeightPart → List Nat
  | initial => Overlay.initialKey
  | dampening => Overlay.dampeningKey

def of (weight : KindWeight) : WeightPart → Double
  | initial => weight.initial
  | dampening => weight.dampening

end WeightPart

namespace WeightTable

def replace (config : Config) (weights : List KindWeight) : WeightTable → Config
  | exprKinds => { config with exprKinds := weights }
  | typeKinds => { config with typeKinds := weights }

@[simp] theorem entries_replace (table : WeightTable) (config : Config)
    (weights : List KindWeight) : table.entries (table.replace config weights) = weights := by
  cases table <;> rfl

theorem entries_replace_ne {table other : WeightTable} (apart : other ≠ table) (config : Config)
    (weights : List KindWeight) :
    other.entries (table.replace config weights) = other.entries config := by
  cases table <;> cases other <;> first | rfl | exact absurd rfl apart

@[simp] theorem replace_replace (table : WeightTable) (config : Config)
    (weights later : List KindWeight) :
    table.replace (table.replace config weights) later = table.replace config later := by
  cases table <;> rfl

@[simp] theorem replace_entries (table : WeightTable) (config : Config) :
    table.replace config (table.entries config) = config := by
  cases table <;> rfl

end WeightTable

theorem ExprKind.eq_of_index {a b : ExprKind} (same : a.index.val = b.index.val) : a = b := by
  have found := a.all_getElem?_index
  rw [same, b.all_getElem?_index] at found
  exact (Option.some.inj found).symm

theorem TypeKind.eq_of_index {a b : TypeKind} (same : a.index.val = b.index.val) : a = b := by
  have found := a.all_getElem?_index
  rw [same, b.all_getElem?_index] at found
  exact (Option.some.inj found).symm

namespace WeightSlot

theorem eq_of_index {kind other : WeightSlot} (table : kind.table = other.table)
    (index : kind.index = other.index) : kind = other := by
  cases kind with
  | expr first =>
      cases other with
      | expr second => exact congrArg expr (ExprKind.eq_of_index index)
      | type second => cases table
  | type first =>
      cases other with
      | expr second => cases table
      | type second => exact congrArg type (TypeKind.eq_of_index index)

theorem exists_of_place (table : WeightTable) {place : Nat} (bound : place < table.vocabulary.width) :
    ∃ kind : WeightSlot, Member.slot? ⟨table.vocabulary, place⟩ = some kind ∧
      kind.table = table ∧ kind.index = place := by
  cases table with
  | exprKinds =>
      obtain ⟨kind, rfl⟩ := ExprKind.exists_index bound
      exact ⟨.expr kind, congrArg (Option.map WeightSlot.expr) kind.all_getElem?_index, rfl, rfl⟩
  | typeKinds =>
      have known : place < TypeKind.all.length := bound
      have index : ∀ i (bound : i < TypeKind.all.length), TypeKind.all[i].index.val = i := by decide
      refine ⟨.type TypeKind.all[place], ?_, rfl, index place known⟩
      exact congrArg (Option.map WeightSlot.type) (List.getElem?_eq_getElem known)

end WeightSlot

namespace Config

def kindWeight (config : Config) : WeightSlot → KindWeight
  | .expr kind => config.exprKind kind
  | .type kind => config.typeKind kind

def content (config : Config) : ConfigSlot → SlotContent
  | .integerMin => .integer config.integerMin
  | .integerMax => .integer config.integerMax
  | .doubleMin => .double config.doubleMin
  | .doubleMax => .double config.doubleMax
  | .binOps => .mask config.binOps
  | .unOps => .mask config.unOps
  | .parenthesize => .double config.parenthesize
  | .const => .double config.const
  | .volatile => .double config.volatile
  | .weight kind part => .double (part.of (config.kindWeight kind))

def Complete (config : Config) : Prop :=
  ∀ table : WeightTable, (table.entries config).length = table.vocabulary.width

theorem Legal.complete {config : Config} (legal : config.Legal) : config.Complete
  | .exprKinds => legal.exprKinds.complete
  | .typeKinds => legal.typeKinds.complete

theorem kindWeight_eq (config : Config) (kind : WeightSlot) :
    config.kindWeight kind = (kind.table.entries config)[kind.index]?.getD ⟨.zero false, .one⟩ := by
  cases kind <;> rfl

theorem Complete.replace {config : Config} (complete : config.Complete) {table : WeightTable}
    {weights : List KindWeight} (length : weights.length = (table.entries config).length) :
    (table.replace config weights).Complete := by
  intro other
  by_cases same : other = table
  · subst same
    rw [WeightTable.entries_replace, length, complete]
  · rw [WeightTable.entries_replace_ne same, complete]

def reweigh (config : Config) (kind : WeightSlot) (weight : KindWeight) : Config :=
  kind.table.replace config ((kind.table.entries config).set kind.index weight)

theorem kindWeight_reweigh {config : Config} (complete : config.Complete) (kind : WeightSlot)
    (weight : KindWeight) : (config.reweigh kind weight).kindWeight kind = weight := by
  have bound : kind.index < (kind.table.entries config).length := by
    rw [complete]
    exact kind.index_lt
  rw [kindWeight_eq, reweigh, WeightTable.entries_replace, List.getElem?_set_self bound]
  rfl

theorem kindWeight_reweigh_ne {config : Config} {kind other : WeightSlot} (apart : other ≠ kind)
    (weight : KindWeight) : (config.reweigh kind weight).kindWeight other = config.kindWeight other := by
  rw [kindWeight_eq, kindWeight_eq, reweigh]
  by_cases table : other.table = kind.table
  · have places : kind.index ≠ other.index :=
      fun same => apart (WeightSlot.eq_of_index table same.symm)
    rw [table, WeightTable.entries_replace, List.getElem?_set_ne places]
  · rw [WeightTable.entries_replace_ne table]

theorem content_reweigh {config : Config} (complete : config.Complete) (kind : WeightSlot)
    (weight : KindWeight) (part : WeightPart) :
    (config.reweigh kind weight).content (.weight kind part) = .double (part.of weight) := by
  rw [content, kindWeight_reweigh complete]

theorem content_reweigh_ne {config : Config} {kind : WeightSlot} {slot : ConfigSlot}
    (apart : ∀ part, slot ≠ .weight kind part) (weight : KindWeight) :
    (config.reweigh kind weight).content slot = config.content slot := by
  cases slot with
  | weight other part =>
      have kinds : other ≠ kind := fun same => apart part (same ▸ rfl)
      rw [content, content, kindWeight_reweigh_ne kinds]
  | integerMin | integerMax | doubleMin | doubleMax | binOps | unOps | parenthesize | const
  | volatile => cases kind <;> rfl

theorem eq_of_kindWeight {a b : Config} (completeA : a.Complete) (completeB : b.Complete)
    (same : ∀ kind, a.kindWeight kind = b.kindWeight kind) (table : WeightTable) :
    table.entries a = table.entries b := by
  apply List.ext_getElem
  · rw [completeA, completeB]
  · intro place boundA boundB
    obtain ⟨kind, _, rfl, rfl⟩ := WeightSlot.exists_of_place table (completeA table ▸ boundA)
    have both := same kind
    rw [kindWeight_eq, kindWeight_eq, List.getElem?_eq_getElem boundA,
      List.getElem?_eq_getElem boundB] at both
    exact both

/-- A configuration is what its slots hold. -/
theorem eq_of_content {a b : Config} (completeA : a.Complete) (completeB : b.Complete)
    (same : ∀ slot, a.content slot = b.content slot) : a = b := by
  have kinds : ∀ kind, a.kindWeight kind = b.kindWeight kind := by
    intro kind
    have initial := SlotContent.double.inj (same (.weight kind .initial))
    have dampening := SlotContent.double.inj (same (.weight kind .dampening))
    rcases first : a.kindWeight kind with ⟨_, _⟩
    rcases second : b.kindWeight kind with ⟨_, _⟩
    rw [first, second] at initial dampening
    cases initial
    cases dampening
    rfl
  have exprKinds : a.exprKinds = b.exprKinds := eq_of_kindWeight completeA completeB kinds .exprKinds
  have typeKinds : a.typeKinds = b.typeKinds := eq_of_kindWeight completeA completeB kinds .typeKinds
  have integerMin := SlotContent.integer.inj (same .integerMin)
  have integerMax := SlotContent.integer.inj (same .integerMax)
  have doubleMin := SlotContent.double.inj (same .doubleMin)
  have doubleMax := SlotContent.double.inj (same .doubleMax)
  have binOps := SlotContent.mask.inj (same .binOps)
  have unOps := SlotContent.mask.inj (same .unOps)
  have parenthesize := SlotContent.double.inj (same .parenthesize)
  have const := SlotContent.double.inj (same .const)
  have volatile := SlotContent.double.inj (same .volatile)
  cases a
  cases b
  simp_all

end Config
end CExpr
