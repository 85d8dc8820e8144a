import CExpr.Proofs.Config.Slots
import CExpr.Proofs.Outcome

/-!
What documents make of a configuration. Every slot holds what was written to it last, in the order of
the documents and of their entries, and what it held before if nothing was written to it.
-/
namespace CExpr
open Json (Value)

namespace ConfigSlot

def convert? : ConfigSlot → Value → Option SlotContent
  | integerMin, value | integerMax, value => (Overlay.toInteger "" value).toOption.map .integer
  | binOps, value => (Overlay.toMask .binOp value).toOption.map .mask
  | unOps, value => (Overlay.toMask .unOp value).toOption.map .mask
  | doubleMin, value | doubleMax, value | parenthesize, value | const, value | volatile, value
  | weight _ _, value => (Overlay.toDouble "" value).toOption.map .double

def field : ConfigSlot → ConfigField
  | integerMin => .integerMin
  | integerMax => .integerMax
  | doubleMin => .doubleMin
  | doubleMax => .doubleMax
  | binOps => .binOps
  | unOps => .unOps
  | parenthesize => .parenthesize
  | const => .const
  | volatile => .volatile
  | weight (.expr _) _ => .exprKinds
  | weight (.type _) _ => .typeKinds

end ConfigSlot

namespace Overlay

def kindWrites (table : WeightTable) (entry : List Nat × Value) : List (ConfigSlot × Value) :=
  match memberOfName table.vocabulary entry.1, entry.2 with
  | .ok place, .object parts =>
    match Member.slot? ⟨table.vocabulary, place⟩ with
    | some kind => WeightPart.all.filterMap fun part =>
        (parts.lookup part.key).map (ConfigSlot.weight kind part, ·)
    | none => []
  | _, _ => []

def tableWrites (table : WeightTable) : Value → List (ConfigSlot × Value)
  | .object entries => entries.flatMap (kindWrites table)
  | _ => []

def fieldWrites (field : ConfigField) (value : Value) : List (ConfigSlot × Value) :=
  match field with
  | .integerMin => [(.integerMin, value)]
  | .integerMax => [(.integerMax, value)]
  | .doubleMin => [(.doubleMin, value)]
  | .doubleMax => [(.doubleMax, value)]
  | .binOps => [(.binOps, value)]
  | .unOps => [(.unOps, value)]
  | .parenthesize => [(.parenthesize, value)]
  | .const => [(.const, value)]
  | .volatile => [(.volatile, value)]
  | .exprKinds => tableWrites .exprKinds value
  | .typeKinds => tableWrites .typeKinds value

def entryWrites (entry : List Nat × Value) : List (ConfigSlot × Value) :=
  match ConfigField.ofKey? entry.1 with
  | some field => fieldWrites field entry.2
  | none => []

/-- The writes of a document in the order of its entries, with the values as the document has them. -/
def writes (document : List (List Nat × Value)) : List (ConfigSlot × Value) :=
  document.flatMap entryWrites

def lastWrite? (slot : ConfigSlot) (written : List (ConfigSlot × Value)) : Option Value :=
  ((written.filter (·.1 = slot)).getLast?).map (·.2)

theorem lastWrite?_append (slot : ConfigSlot) (first second : List (ConfigSlot × Value)) :
    lastWrite? slot (first ++ second) = (lastWrite? slot second).or (lastWrite? slot first) := by
  rw [lastWrite?, List.filter_append, List.getLast?_append, Option.map_or]
  rfl

theorem lastWrite?_eq_none {slot : ConfigSlot} {written : List (ConfigSlot × Value)}
    (untouched : ∀ write ∈ written, write.1 ≠ slot) : lastWrite? slot written = none := by
  have unwritten : written.filter (·.1 = slot) = [] :=
    List.filter_eq_nil_iff.mpr fun write member => by simp [untouched write member]
  rw [lastWrite?, unwritten]
  rfl

end Overlay

namespace Config
open Overlay

/-- What a slot holds after values have been written: the last one that was written to it, converted,
or what it held before. -/
def contentAfter? (config : Config) (written : List (ConfigSlot × Value)) (slot : ConfigSlot) :
    Option SlotContent :=
  match lastWrite? slot written with
  | some value => slot.convert? value
  | none => some (config.content slot)

structure Follows (next config : Config) (written : List (ConfigSlot × Value)) : Prop where
  complete : next.Complete
  content : ∀ slot, config.contentAfter? written slot = some (next.content slot)

namespace Follows

variable {config next last : Config} {written later : List (ConfigSlot × Value)}

theorem refl (complete : config.Complete) : Follows config config [] := ⟨complete, fun _ => rfl⟩

theorem trans (first : Follows next config written) (second : Follows last next later) :
    Follows last config (written ++ later) := by
  refine ⟨second.complete, fun slot => ?_⟩
  have before := first.content slot
  have after := second.content slot
  unfold contentAfter? at before after ⊢
  rw [lastWrite?_append]
  cases write : lastWrite? slot later with
  | some value =>
      rw [write] at after
      exact after
  | none =>
      rw [write] at after
      rw [Option.none_or, before]
      exact after

theorem single {slot : ConfigSlot} {value : Value} (complete : next.Complete)
    (converted : slot.convert? value = some (next.content slot))
    (others : ∀ other, other ≠ slot → next.content other = config.content other) :
    Follows next config [(slot, value)] := by
  refine ⟨complete, fun other => ?_⟩
  by_cases same : other = slot
  · subst same
    simpa [contentAfter?, lastWrite?] using converted
  · have unwritten : lastWrite? other [(slot, value)] = none :=
      lastWrite?_eq_none fun write member => by
        rw [List.mem_singleton.mp member]
        exact Ne.symm same
    rw [contentAfter?, unwritten, others other same]

end Follows
end Config

namespace Overlay
open Config

/-! The name of a value only matters for messages. -/

theorem toDouble_toOption (name other : String) (value : Value) :
    (toDouble name value).toOption = (toDouble other value).toOption := by
  cases value with
  | integer value =>
      rw [toDouble, toDouble]
      cases Double.ofInt value <;> rfl
  | null | truth _ | number _ | text _ | list _ | object _ => rfl

theorem toInteger_toOption (name other : String) (value : Value) :
    (toInteger name value).toOption = (toInteger other value).toOption := by
  cases value with
  | number value =>
      simp only [toInteger]
      cases value.toInt? <;> rfl
  | null | truth _ | integer _ | text _ | list _ | object _ => rfl

variable {config next : Config}

theorem setField_follows {field : ConfigField} {value : Value} (complete : config.Complete)
    (scalar : field ≠ .exprKinds ∧ field ≠ .typeKinds)
    (changed : setField config field value = .ok next) :
    Follows next config (fieldWrites field value) := by
  cases field with
  | exprKinds => exact absurd rfl scalar.1
  | typeKinds => exact absurd rfl scalar.2
  | integerMin | integerMax =>
      obtain ⟨found, converted, same⟩ := bind_eq_ok.mp changed
      cases same
      have known := congrArg Except.toOption converted
      rw [toInteger_toOption _ ""] at known
      refine .single complete (congrArg (Option.map SlotContent.integer) known) ?_
      rintro (_ | _) apart <;> first | rfl | exact absurd rfl apart
  | doubleMin | doubleMax | parenthesize | const | volatile =>
      obtain ⟨found, converted, same⟩ := bind_eq_ok.mp changed
      cases same
      have known := congrArg Except.toOption converted
      rw [toDouble_toOption _ ""] at known
      refine .single complete (congrArg (Option.map SlotContent.double) known) ?_
      rintro (_ | _) apart <;> first | rfl | exact absurd rfl apart
  | binOps | unOps =>
      obtain ⟨found, converted, same⟩ := bind_eq_ok.mp changed
      cases same
      have known := congrArg Except.toOption converted
      refine .single complete (congrArg (Option.map SlotContent.mask) known) ?_
      rintro (_ | _) apart <;> first | rfl | exact absurd rfl apart

theorem doubleAt_eq_ok {parts : List (List Nat × Value)} {key : List Nat} {name : String}
    {present found : Double} (returned : doubleAt parts key name present = .ok found) :
    (match parts.lookup key with
      | some value => (toDouble "" value).toOption
      | none => some present) = some found := by
  unfold doubleAt at returned
  cases value : parts.lookup key with
  | some value =>
      rw [value] at returned
      have known := congrArg Except.toOption returned
      rw [toDouble_toOption _ ""] at known
      exact known
  | none =>
      rw [value] at returned
      exact congrArg some (Except.ok.inj returned)

theorem toKindWeight_eq_ok {kind : List Nat} {present weight : KindWeight} {value : Value}
    (returned : toKindWeight kind present value = .ok weight) :
    ∃ parts, value = .object parts ∧ ∀ part : WeightPart,
      (match parts.lookup part.key with
        | some value => (toDouble "" value).toOption
        | none => some (part.of present)) = some (part.of weight) := by
  cases value with
  | object parts =>
      refine ⟨parts, rfl, ?_⟩
      rw [toKindWeight] at returned
      split at returned
      · cases returned
      · obtain ⟨initial, first, returned⟩ := bind_eq_ok.mp returned
        obtain ⟨dampening, second, same⟩ := bind_eq_ok.mp returned
        cases same
        intro part
        cases part with
        | initial => exact doubleAt_eq_ok first
        | dampening => exact doubleAt_eq_ok second
  | null | truth _ | integer _ | number _ | text _ | list _ => cases returned

theorem memberOfName_lt {vocabulary : Vocabulary} {name : List Nat} {place : Nat}
    (found : memberOfName vocabulary name = .ok place) : place < vocabulary.memberNames.length := by
  unfold memberOfName valueOfKey? at found
  split at found
  · cases found
    exact (List.findIdx?_eq_some_iff_getElem.mp ‹_›).1
  · split at found
    · cases found
      exact (List.findIdx?_eq_some_iff_getElem.mp ‹_›).1
    · cases found

/-- The writes of an entry that was taken are those to the parts of the kind that it names. -/
theorem kindWrites_eq {table : WeightTable} {name : List Nat} {parts : List (List Nat × Value)}
    {place : Nat} {kind : WeightSlot} (found : memberOfName table.vocabulary name = .ok place)
    (meant : Member.slot? ⟨table.vocabulary, place⟩ = some kind) :
    kindWrites table (name, .object parts) = WeightPart.all.filterMap fun part =>
      (parts.lookup part.key).map (ConfigSlot.weight kind part, ·) := by
  simp only [kindWrites, found, meant]

theorem lastWrite?_parts (kind : WeightSlot) (part : WeightPart)
    (parts : List (List Nat × Value)) :
    lastWrite? (.weight kind part) (WeightPart.all.filterMap fun part =>
      (parts.lookup part.key).map (ConfigSlot.weight kind part, ·)) = parts.lookup part.key := by
  cases first : parts.lookup WeightPart.initial.key <;>
    cases second : parts.lookup WeightPart.dampening.key <;>
    cases part <;> simp [lastWrite?, WeightPart.all, first, second]

theorem kindEntry_follows {table : WeightTable} {entry : List Nat × Value}
    {weights : List KindWeight} (complete : config.Complete)
    (changed : kindEntry table.vocabulary (table.entries config) entry = .ok weights) :
    Follows (table.replace config weights) config (kindWrites table entry) := by
  obtain ⟨name, value⟩ := entry
  obtain ⟨place, found, returned⟩ := bind_eq_ok.mp changed
  obtain ⟨weight, converted, same⟩ := bind_eq_ok.mp returned
  cases same
  obtain ⟨parts, rfl, holds⟩ := toKindWeight_eq_ok converted
  have bound : place < table.vocabulary.width := by
    rw [← Config.memberNames_length table]
    exact memberOfName_lt found
  obtain ⟨kind, meant, rfl, rfl⟩ := WeightSlot.exists_of_place table bound
  refine ⟨complete.replace (List.length_set ..), fun slot => ?_⟩
  change config.contentAfter? _ slot = some ((config.reweigh kind weight).content slot)
  rw [contentAfter?, kindWrites_eq found meant]
  by_cases mentioned : ∃ part, slot = .weight kind part
  · obtain ⟨part, rfl⟩ := mentioned
    have part_holds := holds part
    rw [← kindWeight_eq] at part_holds
    rw [lastWrite?_parts, content_reweigh complete, content]
    cases write : parts.lookup part.key with
    | some value =>
        rw [write] at part_holds
        exact congrArg (Option.map SlotContent.double) part_holds
    | none =>
        rw [write] at part_holds
        exact congrArg (Option.map SlotContent.double) part_holds
  · have apart : ∀ part, slot ≠ .weight kind part := fun part same => mentioned ⟨part, same⟩
    rw [lastWrite?_eq_none, content_reweigh_ne apart]
    intro write member
    obtain ⟨part, _, mapped⟩ := List.mem_filterMap.mp member
    obtain ⟨value, _, rfl⟩ := Option.map_eq_some_iff.mp mapped
    exact (apart part).symm

theorem kindEntries_follow {table : WeightTable} {entries : List (List Nat × Value)}
    {weights : List KindWeight} (complete : config.Complete)
    (changed : entries.foldlM (kindEntry table.vocabulary) (table.entries config) = .ok weights) :
    Follows (table.replace config weights) config (entries.flatMap (kindWrites table)) := by
  -- Each entry finds the table that those before it have left.
  induction entries generalizing config with
  | nil =>
      cases changed
      rw [WeightTable.replace_entries]
      exact .refl complete
  | cons entry rest ih =>
      rw [List.foldlM_cons] at changed
      obtain ⟨middle, taken, later⟩ := bind_eq_ok.mp changed
      have first := kindEntry_follows complete taken
      rw [← table.entries_replace config middle] at later
      have second := ih first.complete later
      rw [WeightTable.replace_replace] at second
      exact first.trans second

theorem toWeights_follows {table : WeightTable} {value : Value} {weights : List KindWeight}
    (complete : config.Complete)
    (changed : toWeights table.vocabulary (table.entries config) value = .ok weights) :
    Follows (table.replace config weights) config (tableWrites table value) := by
  cases value with
  | object entries => exact kindEntries_follow complete changed
  | null | truth _ | integer _ | number _ | text _ | list _ => cases changed

/-- What one entry of a document makes of a configuration. -/
theorem setEntry_follows {entry : List Nat × Value} (complete : config.Complete)
    (changed : setEntry config entry = .ok next) : Follows next config (entryWrites entry) := by
  unfold setEntry at changed
  unfold entryWrites
  cases known : ConfigField.ofKey? entry.1 with
  | none =>
      rw [known] at changed
      cases changed
      exact .refl complete
  | some field =>
      rw [known] at changed
      dsimp only at changed ⊢
      by_cases scalar : field ≠ .exprKinds ∧ field ≠ .typeKinds
      · exact setField_follows complete scalar changed
      · cases field with
        | exprKinds =>
            obtain ⟨weights, taken, same⟩ := bind_eq_ok.mp changed
            cases same
            exact @toWeights_follows config .exprKinds _ _ complete taken
        | typeKinds =>
            obtain ⟨weights, taken, same⟩ := bind_eq_ok.mp changed
            cases same
            exact @toWeights_follows config .typeKinds _ _ complete taken
        | integerMin | integerMax | doubleMin | doubleMax | binOps | unOps | parenthesize | const
        | volatile => exact absurd ⟨nofun, nofun⟩ scalar

theorem setEntries_follow {document : List (List Nat × Value)} (complete : config.Complete)
    (changed : document.foldlM setEntry config = .ok next) :
    Follows next config (writes document) := by
  induction document generalizing config with
  | nil =>
      cases changed
      exact .refl complete
  | cons entry rest ih =>
      rw [List.foldlM_cons] at changed
      obtain ⟨middle, taken, later⟩ := bind_eq_ok.mp changed
      have first := setEntry_follows complete taken
      exact first.trans (ih first.complete later)

/-! Whether an entry can be taken does not depend on the configuration. -/
section Uniform

theorem doubleAt_uniform {parts : List (List Nat × Value)} {key : List Nat} {name : String}
    {present found : Double} (other : Double)
    (returned : doubleAt parts key name present = .ok found) :
    ∃ result, doubleAt parts key name other = .ok result := by
  unfold doubleAt at returned ⊢
  cases value : parts.lookup key with
  | some value =>
      rw [value] at returned
      exact ⟨found, returned⟩
  | none => exact ⟨other, rfl⟩

theorem toKindWeight_uniform {kind : List Nat} {present weight : KindWeight} {value : Value}
    (other : KindWeight) (returned : toKindWeight kind present value = .ok weight) :
    ∃ result, toKindWeight kind other value = .ok result := by
  cases value with
  | object parts =>
      rw [toKindWeight] at returned ⊢
      split at returned
      · cases returned
      · obtain ⟨initial, first, returned⟩ := bind_eq_ok.mp returned
        obtain ⟨dampening, second, _⟩ := bind_eq_ok.mp returned
        obtain ⟨_, firstAgain⟩ := doubleAt_uniform other.initial first
        obtain ⟨_, secondAgain⟩ := doubleAt_uniform other.dampening second
        rw [if_neg ‹_›]
        exact ⟨_, bind_eq_ok.mpr ⟨_, firstAgain, bind_eq_ok.mpr ⟨_, secondAgain, rfl⟩⟩⟩
  | null | truth _ | integer _ | number _ | text _ | list _ => cases returned

theorem kindEntry_uniform {vocabulary : Vocabulary} {entry : List Nat × Value}
    {weights after : List KindWeight} (others : List KindWeight)
    (returned : kindEntry vocabulary weights entry = .ok after) :
    ∃ result, kindEntry vocabulary others entry = .ok result := by
  obtain ⟨place, found, returned⟩ := bind_eq_ok.mp returned
  obtain ⟨weight, converted, _⟩ := bind_eq_ok.mp returned
  obtain ⟨result, again⟩ := toKindWeight_uniform (others[place]?.getD ⟨.zero false, .one⟩) converted
  exact ⟨_, bind_eq_ok.mpr ⟨place, found, bind_eq_ok.mpr ⟨result, again, rfl⟩⟩⟩

theorem toWeights_uniform {vocabulary : Vocabulary} {value : Value}
    {weights after : List KindWeight} (others : List KindWeight)
    (returned : toWeights vocabulary weights value = .ok after) :
    ∃ result, toWeights vocabulary others value = .ok result := by
  cases value with
  | object entries =>
      have all := @exists_foldlM_eq_ok_iff _ _ _ (kindEntry vocabulary) kindEntry_uniform entries
      exact (all others).mpr ((all weights).mp ⟨after, returned⟩)
  | null | truth _ | integer _ | number _ | text _ | list _ => cases returned

theorem setEntry_uniform {entry : List Nat × Value} (other : Config)
    (returned : setEntry config entry = .ok next) : ∃ result, setEntry other entry = .ok result := by
  unfold setEntry at returned ⊢
  cases known : ConfigField.ofKey? entry.1 with
  | none => exact ⟨other, rfl⟩
  | some field =>
      rw [known] at returned
      cases field with
      | exprKinds =>
          obtain ⟨weights, taken, _⟩ := bind_eq_ok.mp returned
          obtain ⟨result, again⟩ := toWeights_uniform other.exprKinds taken
          exact ⟨_, bind_eq_ok.mpr ⟨result, again, rfl⟩⟩
      | typeKinds =>
          obtain ⟨weights, taken, _⟩ := bind_eq_ok.mp returned
          obtain ⟨result, again⟩ := toWeights_uniform other.typeKinds taken
          exact ⟨_, bind_eq_ok.mpr ⟨result, again, rfl⟩⟩
      | integerMin | integerMax | doubleMin | doubleMax | binOps | unOps | parenthesize | const
      | volatile =>
          obtain ⟨found, converted, _⟩ := bind_eq_ok.mp returned
          exact ⟨_, bind_eq_ok.mpr ⟨found, converted, rfl⟩⟩

end Uniform

/-! Entries with different keys write to different slots, so their order does not matter. -/
section Order

theorem ConfigField.key_of_ofKey? {key : List Nat} {field : ConfigField}
    (known : ConfigField.ofKey? key = some field) :
    key = Text.codePoints field.name.toList := by
  unfold ConfigField.ofKey? at known
  have meant := List.find?_some known
  exact (of_decide_eq_true meant).symm

theorem field_of_mem_tableWrites {table : WeightTable} {value : Value}
    {write : ConfigSlot × Value} (member : write ∈ tableWrites table value) :
    ∃ kind part, kind.table = table ∧ write.1 = .weight kind part := by
  cases value with
  | object entries =>
      obtain ⟨entry, _, inside⟩ := List.mem_flatMap.mp member
      unfold kindWrites at inside
      split at inside
      · split at inside
        · rename_i kind meant
          obtain ⟨part, _, mapped⟩ := List.mem_filterMap.mp inside
          obtain ⟨value, _, rfl⟩ := Option.map_eq_some_iff.mp mapped
          refine ⟨kind, part, ?_, rfl⟩
          cases table <;> obtain ⟨_, _, rfl⟩ := Option.map_eq_some_iff.mp meant <;> rfl
        · cases inside
      · cases inside
  | null | truth _ | integer _ | number _ | text _ | list _ => cases member

theorem field_of_mem_entryWrites {entry : List Nat × Value} {write : ConfigSlot × Value}
    (member : write ∈ entryWrites entry) :
    entry.1 = Text.codePoints write.1.field.name.toList := by
  unfold entryWrites at member
  split at member
  · rename_i field known
    rw [ConfigField.key_of_ofKey? known]
    cases field with
    | exprKinds | typeKinds =>
        obtain ⟨kind, part, table, same⟩ := field_of_mem_tableWrites member
        rw [same]
        cases kind <;> first | rfl | cases table
    | integerMin | integerMax | doubleMin | doubleMax | binOps | unOps | parenthesize | const
    | volatile =>
        rw [List.mem_singleton.mp member]
        rfl
  · cases member

theorem filter_writes (slot : ConfigSlot) (document : List (List Nat × Value)) :
    (writes document).filter (·.1 = slot) =
      (document.filter (·.1 = Text.codePoints slot.field.name.toList)).flatMap fun entry =>
        (entryWrites entry).filter (·.1 = slot) := by
  induction document with
  | nil => rfl
  | cons entry rest ih =>
      rw [writes, List.flatMap_cons, List.filter_append]
      change _ ++ (writes rest).filter _ = _
      rw [ih]
      by_cases here : entry.1 = Text.codePoints slot.field.name.toList
      · rw [List.filter_cons, if_pos (decide_eq_true here), List.flatMap_cons]
      · rw [List.filter_cons, if_neg (by simpa using here)]
        have absent : (entryWrites entry).filter (·.1 = slot) = [] := by
          apply List.filter_eq_nil_iff.mpr
          intro write member same
          cases of_decide_eq_true same
          exact here (field_of_mem_entryWrites member)
        rw [absent, List.nil_append]

theorem filter_key_eq_of_perm {document other : List (List Nat × Value)}
    (order : document.Perm other) (once : (document.map (·.1)).Nodup) (key : List Nat) :
    document.filter (·.1 = key) = other.filter (·.1 = key) := by
  have moved := order.filter (·.1 = key)
  have distinct : ((document.filter (·.1 = key)).map (·.1)).Nodup :=
    once.sublist (List.filter_sublist.map _)
  have keys : ∀ entry ∈ document.filter (·.1 = key), entry.1 = key :=
    fun entry member => of_decide_eq_true (List.mem_filter.mp member).2
  generalize document.filter (·.1 = key) = found at *
  match found with
  | [] => exact moved.nil_eq
  | [entry] => exact List.singleton_perm.mp moved
  | first :: second :: rest =>
      have same : first.1 = second.1 :=
        (keys first (by simp)).trans (keys second (by simp)).symm
      simp [same] at distinct

theorem lastWrite?_perm {document other : List (List Nat × Value)} (order : document.Perm other)
    (once : (document.map (·.1)).Nodup) (slot : ConfigSlot) :
    lastWrite? slot (writes document) = lastWrite? slot (writes other) := by
  rw [lastWrite?, lastWrite?, filter_writes, filter_writes, filter_key_eq_of_perm order once]

end Order
end Overlay

namespace Config
open Overlay

theorem validate_eq_ok {config : Config} {valid : ValidConfig} :
    config.validate = .ok valid ↔ valid.val = config := by
  unfold validate
  split
  · rw [Except.ok.injEq, Subtype.ext_iff, eq_comm]
  · rename_i problem found
    constructor
    · intro returned
      cases returned
    · rintro rfl
      rw [valid.property] at found
      cases found

/-- A document can be laid over a configuration if it has no unknown keys, every entry can be taken,
and the result passes its check. -/
theorem overlay_eq_ok {config : Config} {document : List (List Nat × Value)} {next : ValidConfig} :
    config.overlay document = .ok next ↔
      (∀ entry ∈ document, (ConfigField.ofKey? entry.1).isSome = true) ∧
        document.foldlM setEntry config = .ok next.val := by
  have known : ((document.map (·.1)).filter fun key => (ConfigField.ofKey? key).isNone) = [] ↔
      ∀ entry ∈ document, (ConfigField.ofKey? entry.1).isSome = true := by
    simp [List.filter_eq_nil_iff, Option.isSome_iff_ne_none]
  rw [← known, overlay]
  generalize (document.map (·.1)).filter (fun key => (ConfigField.ofKey? key).isNone) = unknown
  cases unknown with
  | cons key rest =>
      constructor
      · intro returned
        cases returned
      · rintro ⟨absurdity, _⟩
        cases absurdity
  | nil =>
      constructor
      · intro returned
        obtain ⟨changed, taken, checked⟩ := bind_eq_ok.mp returned
        cases validate_eq_ok.mp (mapError_eq_ok.mp checked)
        exact ⟨rfl, taken⟩
      · rintro ⟨_, taken⟩
        exact bind_eq_ok.mpr ⟨next.val, taken, mapError_eq_ok.mpr (validate_eq_ok.mpr rfl)⟩

/-- Nothing but an object is ever laid over a configuration, whatever the other documents are refused for. -/
theorem overlayDocument_eq_ok {config : Config} {document : Value} {next : ValidConfig} :
    config.overlayDocument document = .ok next ↔
      ∃ entries, document = .object entries ∧ config.overlay entries = .ok next := by
  cases document with
  | object entries =>
      constructor
      · intro returned
        exact ⟨entries, rfl, mapError_eq_ok.mp returned⟩
      · rintro ⟨_, ⟨rfl⟩, laid⟩
        exact mapError_eq_ok.mpr laid
  | list _ | text _ =>
      refine iff_of_false ?_ (by rintro ⟨_, ⟨⟩, _⟩)
      intro returned
      obtain ⟨_, _, thrown⟩ := bind_eq_ok.mp returned
      cases thrown
  | null | truth _ | integer _ | number _ =>
      refine iff_of_false ?_ (by rintro ⟨_, ⟨⟩, _⟩)
      intro returned
      cases returned

def overlayAll (base : ValidConfig) (documents : List (List (List Nat × Value))) :
    Except OverlayError ValidConfig :=
  documents.foldlM (fun config document => config.val.overlay document) base

variable {base next last : ValidConfig} {document other : List (List Nat × Value)}

theorem overlay_follows (changed : base.val.overlay document = .ok next) :
    Follows next.val base.val (writes document) :=
  setEntries_follow (ValidConfig.legal base).complete (overlay_eq_ok.mp changed).2

theorem overlayAll_follows {documents : List (List (List Nat × Value))}
    (changed : overlayAll base documents = .ok last) :
    Follows last.val base.val (documents.flatMap writes) := by
  induction documents generalizing base with
  | nil =>
      cases changed
      exact .refl (ValidConfig.legal last).complete
  | cons document rest ih =>
      rw [overlayAll, List.foldlM_cons] at changed
      obtain ⟨middle, first, later⟩ := bind_eq_ok.mp changed
      exact (overlay_follows first).trans (ih later)

/-- What follows the same configuration by writes that end alike in every slot is the same. -/
theorem Follows.unique {config first second : Config} {written later : List (ConfigSlot × Value)}
    (one : Follows first config written) (two : Follows second config later)
    (alike : ∀ slot, lastWrite? slot written = lastWrite? slot later) : first = second := by
  apply eq_of_content one.complete two.complete
  intro slot
  have here := one.content slot
  rw [contentAfter?, alike slot] at here
  exact Option.some.inj (here.symm.trans (two.content slot))

/-- Writes that are made once more change nothing. -/
theorem Follows.again {config first second : Config} {written : List (ConfigSlot × Value)}
    (one : Follows first config written) (two : Follows second first written) : second = first := by
  apply eq_of_content two.complete one.complete
  intro slot
  have before := one.content slot
  have after := two.content slot
  unfold contentAfter? at before after
  cases write : lastWrite? slot written with
  | none =>
      rw [write] at after
      exact (Option.some.inj after).symm
  | some value =>
      rw [write] at before after
      exact Option.some.inj (after.symm.trans before)

theorem overlay_again (changed : base.val.overlay document = .ok next) :
    next.val.overlay document = .ok next := by
  obtain ⟨known, taken⟩ := overlay_eq_ok.mp changed
  have all := @exists_foldlM_eq_ok_iff _ _ _ setEntry setEntry_uniform document
  obtain ⟨result, again⟩ := (all next.val).mpr ((all base.val).mp ⟨next.val, taken⟩)
  have follows := setEntries_follow (ValidConfig.legal next).complete again
  rw [(overlay_follows changed).again follows] at again
  exact overlay_eq_ok.mpr ⟨known, again⟩

theorem overlay_of_perm (order : document.Perm other) (once : (document.map (·.1)).Nodup)
    (changed : base.val.overlay document = .ok next) : base.val.overlay other = .ok next := by
  obtain ⟨known, taken⟩ := overlay_eq_ok.mp changed
  have all (entries : List (List Nat × Value)) :=
    @exists_foldlM_eq_ok_iff _ _ _ setEntry setEntry_uniform entries base.val
  have each := (all document).mp ⟨next.val, taken⟩
  obtain ⟨result, moved⟩ := (all other).mpr fun entry member => each entry (order.mem_iff.mpr member)
  have follows := setEntries_follow (ValidConfig.legal base).complete moved
  rw [← (overlay_follows changed).unique follows (lastWrite?_perm order once)] at moved
  exact overlay_eq_ok.mpr ⟨fun entry member => known entry (order.mem_iff.mpr member), moved⟩

theorem overlay_perm (order : document.Perm other) (once : (document.map (·.1)).Nodup) :
    (base.val.overlay document).toOption = (base.val.overlay other).toOption := by
  have onceMoved : (other.map (·.1)).Nodup := (order.map _).nodup_iff.mp once
  cases first : base.val.overlay document with
  | ok next => rw [overlay_of_perm order once first]
  | error e =>
      cases second : base.val.overlay other with
      | ok next =>
          rw [overlay_of_perm order.symm onceMoved second] at first
          cases first
      | error e => rfl

/-- After documents have been laid over a configuration one after the other, every slot holds the
conversion of the value that was written to it last, and what it held if nothing was written to it.
Laying a document over its own result changes nothing, the order of its entries does not matter, and a
document that writes to one slot leaves the others as they were. -/
theorem overlay_lastWrite (base : ValidConfig) :
    (∀ documents last, overlayAll base documents = .ok last → ∀ slot,
        some (last.val.content slot) =
          match lastWrite? slot (documents.flatMap writes) with
          | some value => slot.convert? value
          | none => some (base.val.content slot)) ∧
      (∀ document next, base.val.overlay document = .ok next →
        next.val.overlay document = .ok next) ∧
      (∀ document other : List (List Nat × Value), document.Perm other →
        (document.map (·.1)).Nodup →
          (base.val.overlay document).toOption = (base.val.overlay other).toOption) ∧
      (∀ document next slot, base.val.overlay document = .ok next →
        (∀ write ∈ writes document, write.1 = slot) →
          ∀ other, other ≠ slot → next.val.content other = base.val.content other) := by
  refine ⟨?_, fun document next => overlay_again, fun document other => overlay_perm, ?_⟩
  · intro documents last changed slot
    exact ((overlayAll_follows changed).content slot).symm
  · intro document next slot changed only other apart
    have follows := (overlay_follows changed).content other
    have untouched : lastWrite? other (writes document) = none :=
      lastWrite?_eq_none fun write member same => apart (same.symm.trans (only write member))
    rw [contentAfter?, untouched] at follows
    exact (Option.some.inj follows).symm

/-- Two spellings of one kind in a document: the weight is the one under the second spelling, and the
factor, which is only mentioned under the first, is taken from there. -/
theorem overlay_lastWrite_spellings :
    let base : ValidConfig := ⟨.default, default_valid⟩
    let first := (Text.codePoints "BinaryExpr".toList,
      Value.object [(initialKey, .integer 5), (dampeningKey, .integer 1)])
    let second := (Text.codePoints "BINARY_EXPR".toList, Value.object [(initialKey, .integer 2)])
    let document := [(Text.codePoints "expr_kind_weights".toList, Value.object [first, second])]
    let initial := ConfigSlot.weight (.expr .binaryExpr) .initial
    let dampening := ConfigSlot.weight (.expr .binaryExpr) .dampening
    ∃ last, overlayAll base [document] = .ok last ∧
      some (last.val.content initial) = initial.convert? (.integer 2) ∧
      some (last.val.content dampening) = dampening.convert? (.integer 1) ∧
      base.val.overlay document = .ok last ∧ last.val.overlay document = .ok last := by
  intro base first second document initial dampening
  let last : ValidConfig := ⟨{ Config.default with exprKinds :=
    [.ofTenths 10 10, .ofTenths 20 10, .ofTenths 10 10, ⟨.ofInt 2, .one⟩, .ofTenths 10 6] },
    by decide +kernel⟩
  have once : base.val.overlay document = .ok last := ok_of_toOption (by decide +kernel)
  have all : overlayAll base [document] = .ok last := ok_of_toOption (by decide +kernel)
  have law := overlay_lastWrite base
  have held := law.1 [document] last all
  have write : lastWrite? initial ([document].flatMap writes) = some (.integer 2) := rfl
  have other : lastWrite? dampening ([document].flatMap writes) = some (.integer 1) := rfl
  have heldInitial := held initial
  have heldDampening := held dampening
  rw [write] at heldInitial
  rw [other] at heldDampening
  exact ⟨last, all, heldInitial, heldDampening, once, law.2.1 document last once⟩

end Config
end CExpr
