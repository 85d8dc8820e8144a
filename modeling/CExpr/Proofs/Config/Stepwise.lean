import CExpr.Proofs.Config.Overlay
import CExpr.Proofs.Json.ShortIntegers

/-!
Laying a document over a configuration step by step, where each step that can break off says so: a name
that no member has, a number that cannot be converted, bits that do not fit into a mask, a place behind
the end of a table, an integer that is too long for a message. Some of this is expected and becomes a
reason to refuse the document; what is not expected would end the whole. As long as the integers of the
document are short, the outcome step by step is the same in every case, so a document is never worse than
refused.
-/
namespace CExpr
open Json (Value)

namespace Stepwise

inductive Fault
  | refused (e : OverlayError)
  /-- A member was looked up under a name or a token that none has. -/
  | unknownName
  /-- An integer beyond all doubles, or an infinite double for an integer. -/
  | overflow
  /-- An integer was made of what is no number. -/
  | notNumber
  | doesNotFit (bits : Int) (vocabulary : Vocabulary)
  | pastEnd (place : Nat)
  /-- A message was to show an integer with more digits than are converted. -/
  | tooManyDigits

def shown : OverlayError → List Int
  | .notNumber _ value | .notInteger _ value | .maskItem _ value => value.integers
  | .outOfRange _ value => [value]
  | .problem (.integerRange lo hi) => [lo, hi]
  | _ => []

def refuse {α : Type} (e : OverlayError) : Except Fault α :=
  if (shown e).all Json.isShort then .error (.refused e) else .error .tooManyDigits

/-! Steps that can break off. -/

def found : Option Nat → Except Fault Nat
  | some value => .ok value
  | none => .error .unknownName

def wholePart : Double → Except Fault Int
  | .finite negative units _ => .ok (Double.signedUnits negative (units / unitsPerOne))
  | .infinite _ => .error .overflow
  | .nan => .error .notNumber

def isWhole : Double → Bool
  | .finite _ units _ => units % unitsPerOne = 0
  | .infinite _ | .nan => false

def inRange : Double → Except Fault Double
  | .infinite _ => .error .overflow
  | rounded => .ok rounded

def reportOverflow (name : String) (value : Int) : Except Fault Double → Except Fault Double
  | .error .overflow => refuse (.outOfRange name value)
  | outcome => outcome

def maskOf (vocabulary : Vocabulary) (bits : Int) : Except Fault Mask :=
  if fits : 0 ≤ bits ∧ bits.toNat < 2 ^ vocabulary.width then .ok ⟨vocabulary, bits.toNat, fits.2⟩
  else .error (.doesNotFit bits vocabulary)

def entryAt (weights : List KindWeight) (place : Nat) : Except Fault KindWeight :=
  if bound : place < weights.length then .ok weights[place] else .error (.pastEnd place)

def replaceAt (weights : List KindWeight) (place : Nat) (weight : KindWeight) :
    Except Fault (List KindWeight) :=
  if place < weights.length then .ok (weights.set place weight) else .error (.pastEnd place)

/-! Conversions, which expect some of this and no more. -/

def memberOfName (vocabulary : Vocabulary) (name : List Nat) : Except Fault Nat :=
  match found (Overlay.valueOfKey? vocabulary name) with
  | .error .unknownName =>
    match found (Overlay.valueOfKey? vocabulary (Text.upper (Overlay.splitWords name))) with
    | .error .unknownName => refuse (.unknownMember vocabulary name)
    | outcome => outcome
  | outcome => outcome

def toDouble (name : String) : Value → Except Fault Double
  | .number value => .ok value
  | .integer value => reportOverflow name value (inRange (.ofInt value))
  | value => refuse (.notNumber name value)

def toInteger (name : String) : Value → Except Fault Int
  | .integer value => .ok value
  | .number value =>
    if isWhole value then wholePart value
    else refuse (.notInteger name (.number value))
  | value => refuse (.notInteger name value)

def maskItem (vocabulary : Vocabulary) : Value → Except Fault Nat
  | .text codePoints =>
    match found (vocabulary.ofToken? (Json.plainText codePoints).toList) with
    | .error .unknownName => memberOfName vocabulary codePoints
    | outcome => outcome
  | item => refuse (.maskItem vocabulary item)

/-- Bits that do not fit are expected of a number, but not of a list of members. -/
def toMask (vocabulary : Vocabulary) : Value → Except Fault Mask
  | .integer bits =>
    match maskOf vocabulary bits with
    | .error (.doesNotFit bits vocabulary) => refuse (.mask (.doesNotFit bits vocabulary))
    | outcome => outcome
  | .list items => do
    let values ← items.mapM (maskItem vocabulary)
    maskOf vocabulary (Mask.unionBits values)
  | _ => refuse (.maskShape vocabulary)

def doubleAt (entries : List (List Nat × Value)) (key : List Nat) (name : String)
    (present : Double) : Except Fault Double :=
  match entries.lookup key with
  | some value => toDouble name value
  | none => .ok present

def toKindWeight (kind : List Nat) (weights : List KindWeight) (place : Nat) :
    Value → Except Fault KindWeight
  | .object entries => do
    let unknown := (entries.map (·.1)).filter fun key =>
      key ≠ Overlay.initialKey ∧ key ≠ Overlay.dampeningKey
    if !unknown.isEmpty then refuse (.unknownWeightKeys kind (Overlay.sorted unknown))
    let present ← entryAt weights place
    let name := Json.plainText kind
    let initial ← doubleAt entries Overlay.initialKey s!"{name}.initial_weight" present.initial
    let dampening ←
      doubleAt entries Overlay.dampeningKey s!"{name}.dampening_factor" present.dampening
    return ⟨initial, dampening⟩
  | _ => refuse (.tableEntry kind)

def kindEntry (vocabulary : Vocabulary) (weights : List KindWeight) (entry : List Nat × Value) :
    Except Fault (List KindWeight) := do
  let place ← memberOfName vocabulary entry.1
  replaceAt weights place (← toKindWeight entry.1 weights place entry.2)

def toWeights (vocabulary : Vocabulary) (weights : List KindWeight) :
    Value → Except Fault (List KindWeight)
  | .object entries => entries.foldlM (kindEntry vocabulary) weights
  | _ => refuse (.tableShape vocabulary)

def setField (config : Config) (field : ConfigField) (value : Value) : Except Fault Config :=
  match field with
  | .integerMin => return { config with integerMin := ← toInteger field.name value }
  | .integerMax => return { config with integerMax := ← toInteger field.name value }
  | .doubleMin => return { config with doubleMin := ← toDouble field.name value }
  | .doubleMax => return { config with doubleMax := ← toDouble field.name value }
  | .binOps => return { config with binOps := ← toMask .binOp value }
  | .unOps => return { config with unOps := ← toMask .unOp value }
  | .parenthesize => return { config with parenthesize := ← toDouble field.name value }
  | .const => return { config with const := ← toDouble field.name value }
  | .volatile => return { config with volatile := ← toDouble field.name value }
  | .exprKinds => return { config with exprKinds := ← toWeights .exprKind config.exprKinds value }
  | .typeKinds => return { config with typeKinds := ← toWeights .typeKind config.typeKinds value }

def setEntry (config : Config) (entry : List Nat × Value) : Except Fault Config :=
  match ConfigField.ofKey? entry.1 with
  | some field => setField config field entry.2
  | none => .ok config

def kindEntries (config : Config) (kinds : List ExprKind) : Except Fault (List KindWeight) :=
  kinds.mapM fun kind => entryAt config.exprKinds kind.index

/-- The first reason to refuse a configuration for which no single entry has to be read. -/
def earlyProblem? (config : Config) : Option ConfigProblem :=
  config.integerProblem? <|> config.doubleProblem? <|> config.maskProblem? <|>
  config.probabilityProblem? <|> config.tableProblem? .exprKinds <|>
  config.tableProblem? .typeKinds

def validate (config : Config) : Except Fault Config :=
  match earlyProblem? config with
  | some problem => refuse (.problem problem)
  | none => do
    let leaves ← kindEntries config (ExprKind.all.filter (!·.isRecursive))
    if Config.noneIsPositive leaves then refuse (.problem .noLeafWeight)
    let _ ← kindEntries config (ExprKind.all.filter (·.isRecursive))
    return config

def overlay (config : Config) (document : List (List Nat × Value)) : Except Fault Config := do
  let unknown := (document.map (·.1)).filter fun key => (ConfigField.ofKey? key).isNone
  if !unknown.isEmpty then refuse (.unknownKeys (Overlay.sorted unknown))
  validate (← document.foldlM setEntry config)

/-! Each step has the outcome of the conversion, an error being a refusal, if the integers are short. -/

variable {vocabulary : Vocabulary} {weights : List KindWeight} {config : Config}

theorem refuse_eq {α : Type} {e : OverlayError} (short : ∀ value ∈ shown e, Json.isShort value = true) :
    refuse e = (.error (.refused e) : Except Fault α) :=
  if_pos (List.all_eq_true.mpr short)

theorem memberOfName_eq (vocabulary : Vocabulary) (name : List Nat) :
    memberOfName vocabulary name = (Overlay.memberOfName vocabulary name).mapError .refused := by
  unfold memberOfName Overlay.memberOfName
  cases Overlay.valueOfKey? vocabulary name with
  | some value => rfl
  | none => cases Overlay.valueOfKey? vocabulary (Text.upper (Overlay.splitWords name)) <;> rfl

theorem toDouble_eq (name : String) {value : Value} (short : value.Short) :
    toDouble name value = (Overlay.toDouble name value).mapError .refused := by
  cases value with
  | integer value =>
      rw [toDouble, Overlay.toDouble]
      cases Double.ofInt value with
      | infinite negative => exact refuse_eq short
      | finite _ _ _ | nan => rfl
  | number _ => rfl
  | null | truth _ | text _ | list _ | object _ => exact refuse_eq short

theorem wholePart_eq {value : Double} (whole : isWhole value = true) :
    ∃ part, value.toInt? = some part ∧ wholePart value = .ok part := by
  cases value with
  | nan | infinite _ => cases whole
  | finite negative units fits => exact ⟨_, if_pos (of_decide_eq_true whole), rfl⟩

theorem toInt?_eq_none {value : Double} (broken : isWhole value = false) : value.toInt? = none := by
  cases value with
  | nan | infinite _ => rfl
  | finite negative units fits => exact if_neg (of_decide_eq_false broken)

theorem toInteger_eq (name : String) {value : Value} (short : value.Short) :
    toInteger name value = (Overlay.toInteger name value).mapError .refused := by
  cases value with
  | number value =>
      rw [toInteger, Overlay.toInteger]
      cases whole : isWhole value with
      | true =>
          obtain ⟨part, same, converted⟩ := wholePart_eq whole
          rw [same, if_pos rfl, converted]
          rfl
      | false =>
          rw [toInt?_eq_none whole, if_neg Bool.false_ne_true]
          rfl
  | integer _ => rfl
  | null | truth _ | text _ | list _ | object _ => exact refuse_eq short

theorem maskItem_eq (vocabulary : Vocabulary) {item : Value} (short : item.Short) :
    maskItem vocabulary item = (Overlay.maskItem vocabulary item).mapError .refused := by
  cases item with
  | text codePoints =>
      rw [maskItem, Overlay.maskItem]
      cases vocabulary.ofToken? (Json.plainText codePoints).toList with
      | some value => rfl
      | none => exact memberOfName_eq vocabulary codePoints
  | null | truth _ | integer _ | number _ | list _ | object _ => exact refuse_eq short

theorem maskOf_of_lt {bits : Nat} (fits : bits < 2 ^ vocabulary.width) :
    maskOf vocabulary bits = .ok ⟨vocabulary, bits, fits⟩ :=
  dif_pos ⟨Int.natCast_nonneg bits, fits⟩

theorem maskOf_cases (vocabulary : Vocabulary) (bits : Int) :
    (∃ mask, maskOf vocabulary bits = .ok mask ∧ Mask.ofNumber vocabulary bits = .ok mask) ∨
      maskOf vocabulary bits = .error (.doesNotFit bits vocabulary) ∧
        Mask.ofNumber vocabulary bits = .error (.doesNotFit bits vocabulary) := by
  cases bits with
  | ofNat bits =>
      by_cases fits : bits < 2 ^ vocabulary.width
      · exact .inl ⟨_, maskOf_of_lt fits, dif_pos fits⟩
      · exact .inr ⟨dif_neg fun legal => fits legal.2, dif_neg fits⟩
  | negSucc n =>
      have negative : ¬(0 : Int) ≤ .negSucc n := by omega
      exact .inr ⟨dif_neg fun legal => negative legal.1, rfl⟩

theorem ofToken?_lt {text : List Char} {value : Nat} (found : vocabulary.ofToken? text = some value) :
    value < vocabulary.width := by
  cases vocabulary with
  | binOp | unOp => exact (List.findIdx?_eq_some_iff_getElem.mp found).1
  | exprKind | typeKind | qualifiers | listed title titles => cases found

theorem maskItem_lt (named : vocabulary.memberNames.length = vocabulary.width) {item : Value}
    {value : Nat} (taken : Overlay.maskItem vocabulary item = .ok value) :
    value < vocabulary.width := by
  cases item with
  | text codePoints =>
      rw [Overlay.maskItem] at taken
      split at taken
      · rename_i found
        cases taken
        exact ofToken?_lt found
      · rw [← named]
        exact Overlay.memberOfName_lt taken
  | null | truth _ | integer _ | number _ | list _ | object _ => cases taken

theorem unionBits_lt {width : Nat} {values : List Nat} (small : ∀ value ∈ values, value < width) :
    Mask.unionBits values < 2 ^ width := by
  refine List.foldlRecOn (motive := (· < 2 ^ width)) values _ (Nat.two_pow_pos width) ?_
  intro bits fits value member
  refine Nat.or_lt_two_pow fits ?_
  rw [Nat.one_shiftLeft]
  exact Nat.pow_lt_pow_right Nat.one_lt_two (small value member)

/-- The bits of a list of members always fit, so the one case in which a mask would break off does not
occur. -/
theorem toMask_eq (named : vocabulary.memberNames.length = vocabulary.width) {value : Value}
    (short : value.Short) :
    toMask vocabulary value = (Overlay.toMask vocabulary value).mapError .refused := by
  cases value with
  | integer bits =>
      rw [toMask, Overlay.toMask]
      rcases maskOf_cases vocabulary bits with ⟨mask, first, second⟩ | ⟨first, second⟩ <;>
        rw [first, second] <;> rfl
  | list items =>
      rw [toMask, Overlay.toMask]
      have each : items.mapM (maskItem vocabulary) =
          (items.mapM (Overlay.maskItem vocabulary)).mapError .refused :=
        mapM_eq_mapError fun item member =>
          maskItem_eq vocabulary (Json.Value.short_list.mp short item member)
      refine bind_eq_mapError each fun values taken => ?_
      -- Each item is a place in the vocabulary, so no bit is beyond its width.
      have fits := unionBits_lt (forall_of_mapM_eq_ok (maskItem_lt named) taken)
      rw [maskOf_of_lt fits, Mask.ofBits, dif_pos fits]
      rfl
  | null | truth _ | number _ | text _ | object _ => rfl

theorem doubleAt_eq {entries : List (List Nat × Value)} (short : (Value.object entries).Short)
    (key : List Nat) (name : String) (present : Double) :
    doubleAt entries key name present = (Overlay.doubleAt entries key name present).mapError .refused := by
  unfold doubleAt Overlay.doubleAt
  cases found : entries.lookup key with
  | none => rfl
  | some value =>
      obtain ⟨before, behind, rfl, _⟩ := List.lookup_eq_some_iff.mp found
      exact toDouble_eq name (Json.Value.short_object.mp short (key, value) (by simp))

theorem entryAt_of_lt {place : Nat} (bound : place < weights.length) :
    entryAt weights place = .ok (weights[place]?.getD ⟨.zero false, .one⟩) := by
  rw [entryAt, dif_pos bound, List.getElem?_eq_getElem bound, Option.getD_some]

theorem toKindWeight_eq (kind : List Nat) {place : Nat} (bound : place < weights.length)
    {value : Value} (short : value.Short) :
    toKindWeight kind weights place value =
      (Overlay.toKindWeight kind (weights[place]?.getD ⟨.zero false, .one⟩) value).mapError .refused := by
  cases value with
  | object entries =>
      rw [toKindWeight, Overlay.toKindWeight]
      split
      · rfl
      · -- The present entry is read first, also if both of its parts are replaced.
        rw [entryAt_of_lt bound]
        exact bind_eq_mapError (doubleAt_eq short ..) fun _ _ =>
          bind_eq_mapError (doubleAt_eq short ..) fun _ _ => rfl
  | null | truth _ | integer _ | number _ | text _ | list _ => rfl

theorem kindEntry_eq (named : vocabulary.memberNames.length = vocabulary.width)
    (complete : weights.length = vocabulary.width) {entry : List Nat × Value}
    (short : entry.2.Short) :
    kindEntry vocabulary weights entry = (Overlay.kindEntry vocabulary weights entry).mapError .refused := by
  refine bind_eq_mapError (memberOfName_eq vocabulary entry.1) fun place meant => ?_
  have bound : place < weights.length := by
    rw [complete, ← named]
    exact Overlay.memberOfName_lt meant
  refine bind_eq_mapError (toKindWeight_eq entry.1 bound short) fun weight _ => ?_
  exact if_pos bound

theorem kindEntry_length {after : List KindWeight} {entry : List Nat × Value}
    (taken : Overlay.kindEntry vocabulary weights entry = .ok after) :
    after.length = weights.length := by
  obtain ⟨place, _, returned⟩ := bind_eq_ok.mp taken
  obtain ⟨weight, _, same⟩ := bind_eq_ok.mp returned
  cases same
  exact List.length_set ..

theorem toWeights_eq (named : vocabulary.memberNames.length = vocabulary.width)
    (complete : weights.length = vocabulary.width) {value : Value} (short : value.Short) :
    toWeights vocabulary weights value = (Overlay.toWeights vocabulary weights value).mapError .refused := by
  cases value with
  | object entries =>
      refine foldlM_eq_mapError (fun present => present.length = vocabulary.width) ?_ ?_ complete
      · exact fun present complete entry member =>
          kindEntry_eq named complete (Json.Value.short_object.mp short entry member)
      · exact fun present complete entry _ after taken => (kindEntry_length taken).trans complete
  | null | truth _ | integer _ | number _ | text _ | list _ => rfl

theorem setField_eq (complete : config.Complete) (field : ConfigField) {value : Value}
    (short : value.Short) :
    setField config field value = (Overlay.setField config field value).mapError .refused := by
  cases field with
  | integerMin | integerMax => exact bind_eq_mapError (toInteger_eq _ short) fun _ _ => rfl
  | doubleMin | doubleMax | parenthesize | const | volatile =>
      exact bind_eq_mapError (toDouble_eq _ short) fun _ _ => rfl
  | binOps | unOps => exact bind_eq_mapError (toMask_eq rfl short) fun _ _ => rfl
  | exprKinds => exact bind_eq_mapError (toWeights_eq rfl (complete .exprKinds) short) fun _ _ => rfl
  | typeKinds => exact bind_eq_mapError (toWeights_eq rfl (complete .typeKinds) short) fun _ _ => rfl

theorem setEntry_eq (complete : config.Complete) {entry : List Nat × Value}
    (short : entry.2.Short) :
    setEntry config entry = (Overlay.setEntry config entry).mapError .refused := by
  unfold setEntry Overlay.setEntry
  cases ConfigField.ofKey? entry.1 with
  | none => rfl
  | some field => exact setField_eq complete field short

/-! The bounds of the integers, which the check may have to show, stay short. -/

structure Kept (config : Config) : Prop where
  complete : config.Complete
  integerMin : Json.isShort config.integerMin = true
  integerMax : Json.isShort config.integerMax = true

theorem isShort_of_toInt? {value : Double} {whole : Int} (converted : value.toInt? = some whole) :
    Json.isShort whole = true := by
  have limit : unitsLimit ≤ 10 ^ Text.maxDigits := by decide +kernel
  cases value with
  | finite negative units fits =>
      obtain ⟨_, same⟩ := Option.ite_none_right_eq_some.mp converted
      cases same
      have small : (Double.signedUnits negative (units / unitsPerOne)).natAbs < unitsLimit := by
        have part := Nat.lt_of_le_of_lt (Nat.div_le_self units unitsPerOne) fits.2
        cases negative with
        | false => rwa [Double.signedUnits, if_neg Bool.false_ne_true, Int.natAbs_natCast]
        | true => rwa [Double.signedUnits, if_pos rfl, Int.natAbs_neg, Int.natAbs_natCast]
      exact Json.isShort_iff.mpr (Nat.lt_of_lt_of_le small limit)
  | infinite _ | nan => cases converted

theorem isShort_of_toInteger {name : String} {value : Value} {whole : Int} (short : value.Short)
    (taken : Overlay.toInteger name value = .ok whole) : Json.isShort whole = true := by
  cases value with
  | integer value =>
      cases taken
      exact Json.Value.short_integer.mp short
  | number value =>
      rw [Overlay.toInteger] at taken
      split at taken
      · rename_i converted
        cases taken
        exact isShort_of_toInt? converted
      · cases taken
  | null | truth _ | text _ | list _ | object _ => cases taken

theorem Kept.setEntry (kept : Kept config) {entry : List Nat × Value} (short : entry.2.Short)
    {next : Config} (taken : Overlay.setEntry config entry = .ok next) : Kept next := by
  have complete := (Overlay.setEntry_follows kept.complete taken).complete
  unfold Overlay.setEntry at taken
  split at taken
  · rename_i field known
    cases field with
    | integerMin =>
        obtain ⟨whole, converted, same⟩ := bind_eq_ok.mp taken
        cases same
        exact ⟨complete, isShort_of_toInteger short converted, kept.integerMax⟩
    | integerMax =>
        obtain ⟨whole, converted, same⟩ := bind_eq_ok.mp taken
        cases same
        exact ⟨complete, kept.integerMin, isShort_of_toInteger short converted⟩
    | doubleMin | doubleMax | binOps | unOps | parenthesize | const | volatile | exprKinds
    | typeKinds =>
        obtain ⟨found, converted, same⟩ := bind_eq_ok.mp taken
        cases same
        exact ⟨complete, kept.integerMin, kept.integerMax⟩
  · cases taken
    exact kept

/-! The only integers that a problem shows are the bounds of the integers. -/
section Problems

variable {Holds : ConfigProblem → Prop} {first second : Option ConfigProblem}

theorem forall_mem_orElse (here : ∀ problem ∈ first, Holds problem)
    (there : ∀ problem ∈ second, Holds problem) : ∀ problem ∈ (first <|> second), Holds problem := by
  cases first with
  | none => exact there
  | some problem => exact here

theorem forall_mem_problemIf {condition : Bool} {problem : ConfigProblem} (holds : Holds problem) :
    ∀ found ∈ Config.problemIf condition problem, Holds found := by
  intro found member
  obtain ⟨_, same⟩ := Option.ite_none_right_eq_some.mp member
  exact Option.some.inj same ▸ holds

def ShowsBounds (config : Config) (problem : ConfigProblem) : Prop :=
  ∀ value ∈ shown (.problem problem), value = config.integerMin ∨ value = config.integerMax

theorem tableProblem?_shows (table : WeightTable) :
    ∀ problem ∈ config.tableProblem? table, ShowsBounds config problem := by
  refine forall_mem_orElse (forall_mem_problemIf nofun) (forall_mem_orElse ?_ (forall_mem_problemIf nofun))
  intro problem found
  obtain ⟨⟨kind, weight⟩, _, faulty⟩ := List.exists_of_findSome?_eq_some found
  exact forall_mem_orElse (forall_mem_problemIf nofun) (forall_mem_problemIf nofun) problem faulty

theorem earlyProblem?_shows : ∀ problem ∈ earlyProblem? config, ShowsBounds config problem := by
  unfold earlyProblem?
  refine forall_mem_orElse ?integers (forall_mem_orElse ?doubles (forall_mem_orElse ?masks
    (forall_mem_orElse ?probabilities
      (forall_mem_orElse (tableProblem?_shows _) (tableProblem?_shows _)))))
  case integers => exact forall_mem_problemIf fun value member => by simpa [shown] using member
  case masks => exact forall_mem_orElse (forall_mem_problemIf nofun) (forall_mem_problemIf nofun)
  case doubles | probabilities =>
    exact forall_mem_orElse (forall_mem_problemIf nofun)
      (forall_mem_orElse (forall_mem_problemIf nofun) (forall_mem_problemIf nofun))

end Problems

theorem kindEntries_eq (complete : config.exprKinds.length = Vocabulary.exprKind.width)
    (kinds : List ExprKind) : kindEntries config kinds = .ok (kinds.map config.exprKind) := by
  unfold kindEntries
  induction kinds with
  | nil => rfl
  | cons kind rest ih =>
      have bound : kind.index.val < config.exprKinds.length := complete.symm ▸ kind.index.isLt
      rw [List.mapM_cons, entryAt_of_lt bound, ih]
      rfl

theorem problem?_eq (config : Config) :
    config.problem? = (earlyProblem? config <|> config.leafProblem?) := by
  simp only [Config.problem?, earlyProblem?, Option.orElse_eq_orElse, Option.orElse_eq_or,
    Option.or_assoc]

theorem complete_of_earlyProblem? (unproblematic : earlyProblem? config = none) :
    config.exprKinds.length = Vocabulary.exprKind.width := by
  simp only [earlyProblem?, Config.orElse_eq_none] at unproblematic
  exact (Config.tableProblem?_eq_none.mp unproblematic.2.2.2.2.1).complete

theorem validate_map (config : Config) :
    config.validate.map (·.val) =
      match config.problem? with
      | none => .ok config
      | some problem => .error problem := by
  unfold Config.validate
  split <;> simp only [*] <;> rfl

/-- The tables have been found complete before an entry is read. -/
theorem validate_eq (kept : Kept config) :
    validate config = (config.validate.map (·.val)).mapError (.refused ∘ .problem) := by
  rw [validate_map, problem?_eq, validate]
  cases early : earlyProblem? config with
  | some problem =>
      refine refuse_eq fun value member => ?_
      rcases earlyProblem?_shows problem early value member with same | same
      · exact same ▸ kept.integerMin
      · exact same ▸ kept.integerMax
  | none =>
      have complete := complete_of_earlyProblem? early
      simp only [kindEntries_eq complete, Config.leafProblem?, Config.problemIf]
      generalize (ExprKind.all.filter (!·.isRecursive)).map config.exprKind = leaves
      change (if Config.noneIsPositive leaves then _ else _) = _
      cases Config.noneIsPositive leaves <;> rfl

theorem overlay_eq (kept : Kept config) {document : List (List Nat × Value)}
    (short : (Value.object document).Short) :
    overlay config document = ((config.overlay document).map (·.val)).mapError .refused := by
  have each := Json.Value.short_object.mp short
  -- Every entry finds a configuration with complete tables and short bounds, and leaves one.
  have keeps : ∀ config, Kept config → ∀ entry ∈ document, ∀ next,
      Overlay.setEntry config entry = .ok next → Kept next :=
    fun config kept entry member next => kept.setEntry (each entry member)
  have taken : document.foldlM setEntry config =
      (document.foldlM Overlay.setEntry config).mapError .refused :=
    foldlM_eq_mapError Kept
      (fun config kept entry member => setEntry_eq kept.complete (each entry member)) keeps kept
  rw [overlay, Config.overlay]
  split
  · rfl
  · change document.foldlM setEntry config >>= validate = _
    rw [taken]
    cases changed : document.foldlM Overlay.setEntry config with
    | error e => rfl
    | ok last =>
        change validate last = ((last.validate.mapError .problem).map (·.val)).mapError .refused
        rw [validate_eq (foldlM_keeps keeps kept changed)]
        cases last.validate <;> rfl

/-- The integers of a document that was read from a text are short. -/
theorem overlay_read_eq (kept : Kept config) {text : List Char} {document : List (List Nat × Value)}
    (returned : Json.read text = .ok (.object document)) :
    overlay config document = ((config.overlay document).map (·.val)).mapError .refused :=
  overlay_eq kept (Json.read_short returned)

end Stepwise
end CExpr
