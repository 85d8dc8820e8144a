import CExpr.Builtin
import CExpr.Text.Quoted
import CExpr.Vocabulary

/-!
Masks: sets of members of one vocabulary, one bit for each. A mask never has a bit beyond the width
of its vocabulary. Choosing a member at random asks for a rank between one and the number of set
bits, and takes the set bit of that rank.
-/
namespace CExpr

structure Mask where
  vocabulary : Vocabulary
  bits : Nat
  fits : bits < 2 ^ vocabulary.width
  deriving DecidableEq

inductive MaskError
  | doesNotFit (bits : Int) (vocabulary : Vocabulary)
  | noMembers
  | mixed (first other : Vocabulary)
  | unknownName (name : String)
  | noSuchBit (index : Int)
  deriving DecidableEq

namespace Mask

def ofBits (vocabulary : Vocabulary) (bits : Nat) : Except MaskError Mask :=
  if fits : bits < 2 ^ vocabulary.width then .ok ⟨vocabulary, bits, fits⟩
  else .error (.doesNotFit bits vocabulary)

def ofNumber (vocabulary : Vocabulary) : Int → Except MaskError Mask
  | .ofNat bits => ofBits vocabulary bits
  | .negSucc n => .error (.doesNotFit (.negSucc n) vocabulary)

def empty (vocabulary : Vocabulary) : Mask := ⟨vocabulary, 0, Nat.two_pow_pos _⟩

def full (vocabulary : Vocabulary) : Mask :=
  ⟨vocabulary, 2 ^ vocabulary.width - 1, Nat.sub_lt (Nat.two_pow_pos _) Nat.one_pos⟩

def unionBits (values : List Nat) : Nat := values.foldl (fun bits value => bits ||| 1 <<< value) 0

def stranger? (vocabulary : Vocabulary) (members : List Member) : Option Member :=
  members.find? fun member => member.vocabulary ≠ vocabulary

def ofMembers : List Member → Except MaskError Mask
  | [] => .error .noMembers
  | first :: rest =>
    match stranger? first.vocabulary rest with
    | some other => .error (.mixed first.vocabulary other.vocabulary)
    | none => ofBits first.vocabulary (unionBits ((first :: rest).map (·.value)))

def ofNames (vocabulary : Vocabulary) (names : List String) : Except MaskError Mask := do
  let values ← names.mapM fun name =>
    match vocabulary.value? name with
    | some value => .ok value
    | none => .error (.unknownName name)
  ofBits vocabulary (unionBits values)

def count (mask : Mask) : Nat := (Nat.toDigits 2 mask.bits).count '1'

def isEmpty (mask : Mask) : Bool := mask.bits = 0

def test (mask : Mask) (index : Nat) : Bool := mask.bits.testBit index

def bit (mask : Mask) (index : Int) : Except MaskError Bool :=
  if 0 ≤ index ∧ index < mask.vocabulary.width then .ok (mask.test index.toNat)
  else .error (.noSuchBit index)

/-- Whether a member is in the mask. A member of another vocabulary is not; a number beyond the
width has no bit. -/
def contains (mask : Mask) (member : Member) : Except MaskError Bool :=
  if member.vocabulary = mask.vocabulary then mask.bit member.value else .ok false

def positions (mask : Mask) : List Nat := (List.range mask.vocabulary.width).filter mask.test

def members (mask : Mask) : List Member := mask.positions.map (⟨mask.vocabulary, ·⟩)

def memberNames (mask : Mask) : List String := mask.members.map Member.name

def rankThrough (mask : Mask) (index : Nat) : Nat := (List.range (index + 1)).countP mask.test

/-- The first index through which exactly `rank` bits are set. -/
def select? (mask : Mask) (rank : Int) : Option Nat :=
  (List.range mask.vocabulary.width).find? fun index => (mask.rankThrough index : Int) = rank

def description (mask : Mask) : String :=
  let names := if mask.isEmpty then "0" else "|".intercalate mask.memberNames
  s!"EnumMask({mask.vocabulary.name}: {names})"

end Mask

namespace MaskError

def binaryText (bits : Int) : String :=
  let digits := String.ofList (Nat.toDigits 2 bits.natAbs)
  if bits < 0 then s!"-0b{digits}" else s!"0b{digits}"

def message : MaskError → String
  | doesNotFit bits vocabulary =>
    s!"mask {binaryText bits} does not fit {vocabulary.name} ({vocabulary.width} bits)"
  | noMembers => "EnumMask.of() needs at least one member, use EnumMask.empty()"
  | mixed first other => s!"mixed enum classes in mask: {first.name}, {other.name}"
  | unknownName name => Text.quoted name
  | noSuchBit index => toString index

end MaskError
end CExpr
