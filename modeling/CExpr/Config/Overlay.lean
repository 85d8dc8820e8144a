import CExpr.Config.Basic
import CExpr.Json.Value
import CExpr.Text.UpperCase

/-!
Laying a document over a configuration. The document is an object; each entry replaces one field,
and an entry of a weight table replaces what it mentions of one kind. Entries are taken in the order
of the document, the first bad one decides the outcome, and the result is checked as a whole.
-/
namespace CExpr
open Json (Value)

inductive OverlayError
  | unknownKeys (keys : List (List Nat))
  | unknownMember (vocabulary : Vocabulary) (name : List Nat)
  | notNumber (name : String) (value : Value)
  | outOfRange (name : String) (value : Int)
  | notInteger (name : String) (value : Value)
  | mask (e : MaskError)
  | maskShape (vocabulary : Vocabulary)
  | maskItem (vocabulary : Vocabulary) (item : Value)
  | tableShape (vocabulary : Vocabulary)
  | tableEntry (kind : List Nat)
  | unknownWeightKeys (kind : List Nat) (keys : List (List Nat))
  | problem (found : ConfigProblem)

inductive ConfigField
  | integerMin | integerMax | doubleMin | doubleMax | binOps | unOps
  | parenthesize | const | volatile | exprKinds | typeKinds
  deriving DecidableEq

namespace ConfigField

def all : List ConfigField :=
  [integerMin, integerMax, doubleMin, doubleMax, binOps, unOps, parenthesize, const, volatile,
    exprKinds, typeKinds]

def name : ConfigField → String
  | integerMin => "int_const_min"
  | integerMax => "int_const_max"
  | doubleMin => "double_constant_min"
  | doubleMax => "double_constant_max"
  | binOps => "bin_op_mask"
  | unOps => "un_op_mask"
  | parenthesize => ProbabilityField.parenthesize.name
  | const => ProbabilityField.const.name
  | volatile => ProbabilityField.volatile.name
  | exprKinds => WeightTable.exprKinds.name
  | typeKinds => WeightTable.typeKinds.name

def ofKey? (key : List Nat) : Option ConfigField :=
  all.find? fun field => Text.codePoints field.name.toList = key

end ConfigField

namespace Overlay

def isAsciiCapital (codePoint : Nat) : Bool := 0x41 ≤ codePoint && codePoint ≤ 0x5a

def splitWords : List Nat → List Nat
  | [] => []
  | first :: rest => first :: rest.flatMap fun codePoint =>
      if isAsciiCapital codePoint then [0x5f, codePoint] else [codePoint]

def valueOfKey? (vocabulary : Vocabulary) (key : List Nat) : Option Nat :=
  vocabulary.memberNames.findIdx? fun name => Text.codePoints name.toList = key

/-- The member that a name means: the member of that very name, or else the one whose name is the
given one with its words set apart and in capitals. So `binaryExpr`, `BinaryExpr`, `binary_expr` and
`BINARY_EXPR` all mean the same kind. -/
def memberOfName (vocabulary : Vocabulary) (name : List Nat) : Except OverlayError Nat :=
  match valueOfKey? vocabulary name with
  | some value => .ok value
  | none =>
    match valueOfKey? vocabulary (Text.upper (splitWords name)) with
    | some value => .ok value
    | none => .error (.unknownMember vocabulary name)

def inRange (name : String) (value : Int) : Double → Except OverlayError Double
  | .infinite _ => .error (.outOfRange name value)
  | rounded => .ok rounded

def toDouble (name : String) : Value → Except OverlayError Double
  | .number value => .ok value
  | .integer value => inRange name value (.ofInt value)
  | value => .error (.notNumber name value)

def toInteger (name : String) : Value → Except OverlayError Int
  | .integer value => .ok value
  | .number value =>
    match value.toInt? with
    | some whole => .ok whole
    | none => .error (.notInteger name (.number value))
  | value => .error (.notInteger name value)

def maskItem (vocabulary : Vocabulary) : Value → Except OverlayError Nat
  | .text codePoints =>
    match vocabulary.ofToken? (Json.plainText codePoints).toList with
    | some value => .ok value
    | none => memberOfName vocabulary codePoints
  | item => .error (.maskItem vocabulary item)

def toMask (vocabulary : Vocabulary) : Value → Except OverlayError Mask
  | .integer bits => (Mask.ofNumber vocabulary bits).mapError .mask
  | .list items => do
    let values ← items.mapM (maskItem vocabulary)
    (Mask.ofBits vocabulary (Mask.unionBits values)).mapError .mask
  | _ => .error (.maskShape vocabulary)

def initialKey : List Nat := Text.codePoints "initial_weight".toList

def dampeningKey : List Nat := Text.codePoints "dampening_factor".toList

def sorted (keys : List (List Nat)) : List (List Nat) := keys.mergeSort fun a b => !b.lex a

def doubleAt (entries : List (List Nat × Value)) (key : List Nat) (name : String)
    (present : Double) : Except OverlayError Double :=
  match entries.lookup key with
  | some value => toDouble name value
  | none => .ok present

def toKindWeight (kind : List Nat) (present : KindWeight) : Value → Except OverlayError KindWeight
  | .object entries => do
    let unknown := (entries.map (·.1)).filter fun key => key ≠ initialKey ∧ key ≠ dampeningKey
    if !unknown.isEmpty then throw (.unknownWeightKeys kind (sorted unknown))
    let name := Json.plainText kind
    let initial ← doubleAt entries initialKey s!"{name}.initial_weight" present.initial
    let dampening ← doubleAt entries dampeningKey s!"{name}.dampening_factor" present.dampening
    return ⟨initial, dampening⟩
  | _ => .error (.tableEntry kind)

def kindEntry (vocabulary : Vocabulary) (weights : List KindWeight) (entry : List Nat × Value) :
    Except OverlayError (List KindWeight) := do
  let index ← memberOfName vocabulary entry.1
  let present := weights[index]?.getD ⟨.zero false, .one⟩
  return weights.set index (← toKindWeight entry.1 present entry.2)

def toWeights (vocabulary : Vocabulary) (weights : List KindWeight) :
    Value → Except OverlayError (List KindWeight)
  | .object entries => entries.foldlM (kindEntry vocabulary) weights
  | _ => .error (.tableShape vocabulary)

def setField (config : Config) (field : ConfigField) (value : Value) :
    Except OverlayError Config :=
  match field with
  | .integerMin => return { config with integerMin := ← toInteger field.name value }
  | .integerMax => return { config with integerMax := ← toInteger field.name value }
  | .doubleMin => return { config with doubleMin := ← toDouble field.name value }
  | .doubleMax => return { config with doubleMax := ← toDouble field.name value }
  | .binOps => return { config with binOps := ← toMask .binOp value }
  | .unOps => return { config with unOps := ← toMask .unOp value }
  | .parenthesize => return { config with parenthesize := ← toDouble field.name value }
  | .const => return { config with const := ← toDouble field.name value }
  | .volatile => return { config with volatile := ← toDouble field.name value }
  | .exprKinds => return { config with exprKinds := ← toWeights .exprKind config.exprKinds value }
  | .typeKinds => return { config with typeKinds := ← toWeights .typeKind config.typeKinds value }

/-- One entry of a document. A key that names no field changes nothing; documents with such keys are
refused before any entry is taken. -/
def setEntry (config : Config) (entry : List Nat × Value) : Except OverlayError Config :=
  match ConfigField.ofKey? entry.1 with
  | some field => setField config field entry.2
  | none => .ok config

end Overlay

def Config.overlay (config : Config) (document : List (List Nat × Value)) :
    Except OverlayError ValidConfig := do
  let unknown := (document.map (·.1)).filter fun key => (ConfigField.ofKey? key).isNone
  if !unknown.isEmpty then throw (.unknownKeys (Overlay.sorted unknown))
  let changed ← document.foldlM Overlay.setEntry config
  changed.validate.mapError .problem

/-- Kinds of expression, named in any case, given new weights; nothing is checked. -/
def Config.withExprWeights (config : Config) (weights : List (String × KindWeight)) :
    Except (List Nat) Config :=
  weights.foldlM (fun config (name, weight) =>
    let key := Text.upper (Text.codePoints name.toList)
    match Overlay.valueOfKey? .exprKind key with
    | some index => .ok { config with exprKinds := config.exprKinds.set index weight }
    | none => .error key) config

def OverlayError.message : OverlayError → String
  | unknownKeys keys =>
    s!"unknown configuration keys: {Text.bracketed (keys.map Text.quotedCodePoints)}"
  | unknownMember vocabulary name => s!"unknown {vocabulary.name} '{Json.plainText name}'"
  | notNumber name value => s!"{name} must be a number, got {value.description}"
  | outOfRange name value => s!"{name} is out of range: {value}"
  | notInteger name value => s!"{name} must be an integer, got {value.description}"
  | mask e => e.message
  | maskShape vocabulary => s!"{vocabulary.name} mask must be a list or an integer"
  | maskItem vocabulary item =>
    s!"{vocabulary.name} mask entries must be strings, got {item.description}"
  | tableShape vocabulary => s!"{vocabulary.name} weights must be an object keyed by kind"
  | tableEntry kind =>
    s!"weight for {Json.plainText kind} must be an object with " ++
      "initial_weight and/or dampening_factor"
  | unknownWeightKeys kind keys =>
    s!"unknown weight keys for {Json.plainText kind}: " ++
      Text.bracketed (keys.map Text.quotedCodePoints)
  | problem found => found.message

/-! A document of any kind. One that is not an object is refused, but the look for keys that are not
known comes first, and for that the items of a list or the characters of a text will do. -/

inductive DocumentError
  | overlay (e : OverlayError)
  | notIterable (document : Value)
  | unhashable (item : Value)
  /-- Two unknown items of which neither can come before the other. -/
  | notOrdered (first second : Value)
  | unknownItems (items : List Value)
  /-- Nothing in the document is unknown, but it has no entries. -/
  | noEntries (document : Value)

namespace Document

def number? : Value → Option Double
  | .truth value => some (.ofInt (if value then 1 else 0))
  | .integer value => some (.ofInt value)
  | .number value => some value
  | _ => none

def same : Value → Value → Bool
  | .text a, .text b => a = b
  | .integer a, .integer b => a = b
  | .null, .null => true
  | a, b =>
    match number? a, number? b with
    | some x, some y => x.equals y
    | _, _ => false

def precedes : Value → Value → Bool
  | .text a, .text b => a.lex b
  | .integer a, .integer b => a < b
  | a, b =>
    match number? a, number? b with
    | some x, some y => x.lt y
    | _, _ => false

def areOrdered : Value → Value → Bool
  | .text _, .text _ => true
  | a, b => (number? a).isSome && (number? b).isSome

def firstNotOrdered? : List Value → Option (Value × Value)
  | a :: b :: rest => if areOrdered a b then firstNotOrdered? (b :: rest) else some (a, b)
  | _ => none

def isHashable : Value → Bool
  | .list _ | .object _ => false
  | _ => true

def isKnown : Value → Bool
  | .text key => (ConfigField.ofKey? key).isSome
  | _ => false

def distinct (items : List Value) : List Value :=
  items.foldl (fun seen item => if seen.any (same item) then seen else seen ++ [item]) []

def items? : Value → Option (List Value)
  | .list items => some items
  | .text codePoints => some (codePoints.map fun codePoint => .text [codePoint])
  | _ => none

/-- Unknown items are named in order, so there has to be one. -/
def checkItems (items : List Value) : Except DocumentError Unit :=
  match items.find? (!isHashable ·) with
  | some item => .error (.unhashable item)
  | none =>
    let unknown := distinct (items.filter (!isKnown ·))
    match firstNotOrdered? unknown with
    | some (first, second) => .error (.notOrdered first second)
    | none =>
      if unknown.isEmpty then .ok ()
      else .error (.unknownItems (unknown.mergeSort fun a b => !precedes b a))

end Document

def Config.overlayDocument (config : Config) : Value → Except DocumentError ValidConfig
  | .object entries => (config.overlay entries).mapError .overlay
  | document =>
    match Document.items? document with
    | none => .error (.notIterable document)
    | some items => do
      Document.checkItems items
      throw (.noEntries document)

def DocumentError.message : DocumentError → String
  | overlay e => e.message
  | notIterable document => s!"'{document.typeName}' object is not iterable"
  | unhashable item => s!"unhashable type: '{item.typeName}'"
  | notOrdered first second => "'<' not supported between instances of " ++
      s!"'{second.typeName}' and '{first.typeName}'"
  | unknownItems items =>
    s!"unknown configuration keys: {Text.bracketed (items.map Value.description)}"
  | noEntries document => s!"'{document.typeName}' object has no attribute 'items'"

end CExpr
