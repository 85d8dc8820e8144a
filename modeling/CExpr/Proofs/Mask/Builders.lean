import CExpr.Proofs.Config.Stepwise
import CExpr.Proofs.Mask.Selection
import Mathlib.Data.List.Dedup

/-!
Masks as sets of members. A mask can be built from members, from their names, from a number, or from the
list in a document that writes each member as its token or its name. In whatever order the members are
listed, and however often, all of these come to the same mask: its members are the listed ones, each once
and in the order of their numbers. A mask is built again from its own members, their names or its number.
-/
namespace CExpr

namespace Vocabulary

/-- The members have different names and the numbers from zero up to the width, as in all vocabularies but
that of the qualifiers. -/
def CountsUp (vocabulary : Vocabulary) : Prop :=
  vocabulary.memberNames.Nodup ∧ vocabulary.memberNames.length = vocabulary.width

instance (vocabulary : Vocabulary) : Decidable vocabulary.CountsUp :=
  inferInstanceAs (Decidable (_ ∧ _))

variable {vocabulary : Vocabulary} {value : Nat}

theorem memberName_eq (inside : value < vocabulary.memberNames.length) :
    vocabulary.memberName value = vocabulary.memberNames[value] := by
  rw [memberName, List.getElem?_eq_getElem inside]
  rfl

theorem findIdx?_memberNames {α : Type} [DecidableEq α] (form : String → α)
    (faithful : Function.Injective form) (countsUp : vocabulary.CountsUp)
    (bound : value < vocabulary.width) :
    vocabulary.memberNames.findIdx? (form · = form (vocabulary.memberName value)) = some value := by
  have inside : value < vocabulary.memberNames.length := countsUp.2 ▸ bound
  rw [memberName_eq inside]
  refine List.findIdx?_eq_some_iff_getElem.mpr ⟨inside, by simp, fun before earlier => ?_⟩
  refine mt of_decide_eq_true fun equal => ?_
  -- An earlier place with this form would be one with this name, and no two places share a name.
  exact Nat.ne_of_lt earlier ((List.Nodup.getElem_inj_iff countsUp.1).mp (faithful equal))

theorem value?_memberName (countsUp : vocabulary.CountsUp) (bound : value < vocabulary.width) :
    vocabulary.value? (vocabulary.memberName value) = some value :=
  findIdx?_memberNames id Function.injective_id countsUp bound

end Vocabulary

structure Member.IsOf (vocabulary : Vocabulary) (member : Member) : Prop where
  same : member.vocabulary = vocabulary
  bound : member.value < vocabulary.width

/-- An item of a document that writes a member: by its name, or by the token of the operator that it is. -/
inductive Member.IsWritten : Member → Json.Value → Prop
  | name (member : Member) : IsWritten member (.text (Text.codePoints member.name.toList))
  | binOp (op : BinOp) : IsWritten (.ofBinOp op) (.text (Text.codePoints op.token))
  | unOp (op : UnOp) : IsWritten (.ofUnOp op) (.text (Text.codePoints op.token))

theorem codePoints_injective : Function.Injective fun name : String => Text.codePoints name.toList :=
  (List.map_injective_iff.mpr fun _ _ => Char.toNat_inj.mp).comp fun _ _ => String.toList_inj.mp

theorem plainText_codePoints (text : List Char) :
    Json.plainText (Text.codePoints text) = String.ofList text := by
  rw [Json.plainText, Text.codePoints, List.map_map]
  refine congrArg String.ofList (List.map_id'' (fun c => ?_) text)
  have valid : c.toNat < 0xd800 ∨ 0xdfff < c.toNat ∧ c.toNat < 0x110000 := c.valid
  have plain : ¬(0xd800 ≤ c.toNat && c.toNat < 0xe000) = true := by
    simp only [Bool.and_eq_true, decide_eq_true_eq]
    omega
  rw [Function.comp_apply, if_neg plain, Char.ofNat_toNat]

theorem mapM_eq_ok {ε α β : Type} {g : α → Except ε β} {items : List α} {results : List β}
    (each : List.Forall₂ (fun a b => g a = .ok b) items results) : items.mapM g = .ok results := by
  induction each with
  | nil => rfl
  | cons here _ ih =>
      rw [List.mapM_cons, here, ih]
      rfl

/-- No operator has a token that is the name of one. -/
theorem maskItem_of_isWritten {vocabulary : Vocabulary} {member : Member} {item : Json.Value}
    (operators : vocabulary = .binOp ∨ vocabulary = .unOp) (of : member.IsOf vocabulary)
    (written : member.IsWritten item) : Overlay.maskItem vocabulary item = .ok member.value := by
  have countsUp : vocabulary.CountsUp := by rcases operators with rfl | rfl <;> decide
  -- An item is looked up as a token first, so a name must not be one.
  have noTokens : ∀ name ∈ vocabulary.memberNames, vocabulary.ofToken? name.toList = none := by
    rcases operators with rfl | rfl <;> decide
  obtain ⟨rfl, bound⟩ := of
  cases written with
  | name member =>
      have listed : member.name ∈ member.vocabulary.memberNames := by
        rw [Member.name, Vocabulary.memberName_eq (countsUp.2 ▸ bound)]
        exact List.getElem_mem _
      have found : Overlay.valueOfKey? member.vocabulary (Text.codePoints member.name.toList) =
          some member.value :=
        Vocabulary.findIdx?_memberNames _ codePoints_injective countsUp bound
      rw [Overlay.maskItem, plainText_codePoints, String.ofList_toList, noTokens _ listed]
      dsimp only
      rw [Overlay.memberOfName, found]
  | binOp op =>
      rw [Overlay.maskItem, plainText_codePoints]
      cases op <;> rfl
  | unOp op =>
      rw [Overlay.maskItem, plainText_codePoints]
      cases op <;> rfl

namespace Mask

variable {vocabulary : Vocabulary} {values : List Nat} {index : Nat}

theorem testBit_foldl_or (values : List Nat) (bits index : Nat) :
    (values.foldl (fun bits value => bits ||| 1 <<< value) bits).testBit index = true ↔
      bits.testBit index = true ∨ index ∈ values := by
  induction values generalizing bits with
  | nil => simp
  | cons value rest ih =>
      have single : (1 <<< value).testBit index = true ↔ index = value := by
        rw [Nat.one_shiftLeft, Nat.testBit_two_pow, decide_eq_true_iff, eq_comm]
      rw [List.foldl_cons, ih, Nat.testBit_or, Bool.or_eq_true, single, List.mem_cons, or_assoc]

theorem testBit_unionBits (values : List Nat) (index : Nat) :
    (unionBits values).testBit index = true ↔ index ∈ values := by
  rw [unionBits, testBit_foldl_or]
  simp

def ofValues (vocabulary : Vocabulary) (values : List Nat)
    (bounds : ∀ value ∈ values, value < vocabulary.width) : Mask :=
  ⟨vocabulary, unionBits values, Stepwise.unionBits_lt bounds⟩

theorem ofBits_unionBits (bounds : ∀ value ∈ values, value < vocabulary.width) :
    ofBits vocabulary (unionBits values) = .ok (ofValues vocabulary values bounds) :=
  dif_pos (Stepwise.unionBits_lt bounds)

theorem mem_positions (mask : Mask) (index : Nat) :
    index ∈ mask.positions ↔ index < mask.vocabulary.width ∧ mask.test index = true := by
  rw [positions, List.mem_filter, List.mem_range]

theorem mem_positions_ofValues (bounds : ∀ value ∈ values, value < vocabulary.width) :
    index ∈ (ofValues vocabulary values bounds).positions ↔ index ∈ values := by
  have isSet : (ofValues vocabulary values bounds).test index = true ↔ index ∈ values :=
    testBit_unionBits values index
  rw [mem_positions, isSet]
  exact ⟨And.right, fun member => ⟨bounds index member, member⟩⟩

theorem unionBits_positions (mask : Mask) : unionBits mask.positions = mask.bits := by
  refine Nat.eq_of_testBit_eq fun index => Bool.eq_iff_iff.mpr ?_
  rw [testBit_unionBits, mem_positions]
  exact ⟨And.right, fun isSet => ⟨lt_width_of_test isSet, isSet⟩⟩

theorem ofValues_eq {mask : Mask} (same : values = mask.positions)
    (bounds : ∀ value ∈ values, value < mask.vocabulary.width) :
    ofValues mask.vocabulary values bounds = mask := by
  subst same
  obtain ⟨vocabulary, bits, fits⟩ := mask
  simp only [ofValues, unionBits_positions]

/-- The mask is the set of the listed members: it holds each of them and no other, it goes through them in
the order of their numbers, and it counts each of them once. -/
structure Lists (mask : Mask) (listed : List Member) : Prop where
  same : ∀ member, member ∈ mask.members ↔ member ∈ listed
  ascending : mask.members.Pairwise fun low high => low.value < high.value
  count : mask.count = listed.dedup.length
  contains : ∀ member : Member,
    (member.vocabulary = mask.vocabulary → member.value < mask.vocabulary.width) →
      mask.contains member = .ok (decide (member ∈ listed))

theorem mem_members (mask : Mask) (member : Member) :
    member ∈ mask.members ↔ member.vocabulary = mask.vocabulary ∧ member.value ∈ mask.positions := by
  obtain ⟨vocabulary, value⟩ := member
  simp only [members, List.mem_map, Member.mk.injEq]
  constructor
  · rintro ⟨place, stands, same, rfl⟩
    exact ⟨same.symm, stands⟩
  · rintro ⟨rfl, stands⟩
    exact ⟨value, stands, rfl, rfl⟩

theorem isOf_of_mem_members {mask : Mask} {member : Member} (listed : member ∈ mask.members) :
    member.IsOf mask.vocabulary := by
  obtain ⟨same, stands⟩ := (mem_members mask member).mp listed
  exact ⟨same, ((mem_positions mask member.value).mp stands).1⟩

theorem map_value_members (mask : Mask) : mask.members.map (·.value) = mask.positions := by
  rw [members, List.map_map]
  exact List.map_id'' (fun _ => rfl) _

theorem members_ascending (mask : Mask) :
    mask.members.Pairwise fun low high => low.value < high.value :=
  List.pairwise_map.mpr (List.pairwise_lt_range.filter _)

theorem count_eq_dedup {mask : Mask} {listed : List Member}
    (same : ∀ member, member ∈ mask.members ↔ member ∈ listed) :
    mask.count = listed.dedup.length := by
  -- Both lists are without repetitions and have the same members.
  have distinct : mask.members.Nodup :=
    mask.members_ascending.imp fun less equal => Nat.ne_of_lt less (congrArg Member.value equal)
  have perm : mask.members.Perm listed.dedup :=
    (List.perm_ext_iff_of_nodup distinct listed.nodup_dedup).mpr fun member =>
      (same member).trans List.mem_dedup.symm
  rw [← perm.length_eq, count_eq_positions, members, List.length_map]

theorem contains_eq {mask : Mask} {member : Member}
    (own : member.vocabulary = mask.vocabulary → member.value < mask.vocabulary.width) :
    mask.contains member = .ok (decide (member ∈ mask.members)) := by
  rw [contains]
  by_cases same : member.vocabulary = mask.vocabulary
  · have inside := own same
    have isSet : mask.test member.value = decide (member ∈ mask.members) := by
      refine Bool.eq_iff_iff.mpr ?_
      rw [decide_eq_true_iff, mem_members, mem_positions]
      exact ⟨fun isSet => ⟨same, inside, isSet⟩, fun stands => stands.2.2⟩
    rw [if_pos same, bit, if_pos ⟨Int.natCast_nonneg _, Int.ofNat_lt.mpr inside⟩, Int.toNat_natCast,
      isSet]
  · have absent : member ∉ mask.members := fun stands => same ((mem_members mask member).mp stands).1
    rw [if_neg same, decide_eq_false absent]

theorem lists_of_members {mask : Mask} {listed : List Member}
    (same : ∀ member, member ∈ mask.members ↔ member ∈ listed) : mask.Lists listed where
  same := same
  ascending := mask.members_ascending
  count := count_eq_dedup same
  contains member own := by
    rw [contains_eq own]
    exact congrArg Except.ok (decide_eq_decide.mpr (same member))

/-! What each of the builders makes of members that are all of one vocabulary. -/
section Builders

variable {members : List Member}

theorem forall_mem_values (all : ∀ member ∈ members, member.IsOf vocabulary) :
    ∀ value ∈ members.map (·.value), value < vocabulary.width :=
  List.forall_mem_map.mpr fun member listed => (all member listed).bound

theorem ofMembers_eq (nonempty : members ≠ []) (all : ∀ member ∈ members, member.IsOf vocabulary) :
    ofMembers members =
      .ok (ofValues vocabulary (members.map (·.value)) (forall_mem_values all)) := by
  cases members with
  | nil => exact absurd rfl nonempty
  | cons first rest =>
      have same : first.vocabulary = vocabulary := (all first List.mem_cons_self).same
      have noStranger : stranger? vocabulary rest = none := by
        refine List.find?_eq_none.mpr fun member listed => ?_
        simp [(all member (List.mem_cons_of_mem _ listed)).same]
      rw [ofMembers, same, noStranger]
      exact ofBits_unionBits (forall_mem_values all)

theorem ofNames_eq (countsUp : vocabulary.CountsUp)
    (all : ∀ member ∈ members, member.IsOf vocabulary) :
    ofNames vocabulary (members.map Member.name) =
      .ok (ofValues vocabulary (members.map (·.value)) (forall_mem_values all)) := by
  refine bind_eq_ok.mpr ⟨members.map (·.value), mapM_eq_ok ?_, ofBits_unionBits _⟩
  refine List.forall₂_map_left_iff.mpr (List.forall₂_map_right_iff.mpr ?_)
  refine List.forall₂_same.mpr fun member listed => ?_
  obtain ⟨rfl, bound⟩ := all member listed
  rw [Member.name, Vocabulary.value?_memberName countsUp bound]

theorem toMask_eq {items : List Json.Value} (operators : vocabulary = .binOp ∨ vocabulary = .unOp)
    (all : ∀ member ∈ members, member.IsOf vocabulary)
    (written : List.Forall₂ Member.IsWritten members items) :
    Overlay.toMask vocabulary (.list items) =
      .ok (ofValues vocabulary (members.map (·.value)) (forall_mem_values all)) := by
  refine bind_eq_ok.mpr ⟨members.map (·.value), mapM_eq_ok ?_, ?_⟩
  · refine List.forall₂_map_right_iff.mpr ?_
    have both := (List.forall₂_and_left _ _).mpr ⟨all, written⟩
    exact (both.imp fun member item entry => maskItem_of_isWritten operators entry.1 entry.2).flip
  · rw [ofBits_unionBits (forall_mem_values all)]
    rfl

theorem ofValues_lists (all : ∀ member ∈ members, member.IsOf vocabulary) :
    (ofValues vocabulary (members.map (·.value)) (forall_mem_values all)).Lists members := by
  refine lists_of_members fun member => ?_
  rw [mem_members, mem_positions_ofValues, List.mem_map]
  constructor
  · rintro ⟨same, other, listed, equal⟩
    obtain ⟨vocabulary, value⟩ := member
    obtain ⟨rfl, _⟩ := all other listed
    cases same
    cases equal
    exact listed
  · intro listed
    exact ⟨(all member listed).same, member, listed, rfl⟩

theorem members_ne_nil {mask : Mask} (nonempty : mask.isEmpty = false) : mask.members ≠ [] := by
  intro empty
  have positions := mask.map_value_members
  rw [empty, List.map_nil] at positions
  have bits := mask.unionBits_positions
  rw [← positions] at bits
  rw [isEmpty, ← bits] at nonempty
  cases nonempty

end Builders

/-- Over members whose numbers count up from zero all builders agree. Members that are listed in any order
and any number of times, their names, and for operators the items of a document that write each of them in
either way, come to one mask, which is the set of the listed members. The other way round, a mask is built
again from the names of its members, from its number, and from its members if there are any. -/
theorem builders_agree (vocabulary : Vocabulary) (countsUp : vocabulary.CountsUp) :
    (∀ members : List Member, (∀ member ∈ members, member.IsOf vocabulary) →
      ∃ mask : Mask, mask.vocabulary = vocabulary ∧ mask.Lists members ∧
        (members ≠ [] → ofMembers members = .ok mask) ∧
        ofNames vocabulary (members.map Member.name) = .ok mask ∧
        (vocabulary = .binOp ∨ vocabulary = .unOp →
          ∀ items, List.Forall₂ Member.IsWritten members items →
            Overlay.toMask vocabulary (.list items) = .ok mask)) ∧
    ∀ mask : Mask, mask.vocabulary = vocabulary →
      ofNames vocabulary mask.memberNames = .ok mask ∧
      ofNumber vocabulary mask.bits = .ok mask ∧
      (mask.isEmpty = false → ofMembers mask.members = .ok mask) := by
  refine ⟨fun members all => ⟨ofValues vocabulary (members.map (·.value)) (forall_mem_values all),
    rfl, ofValues_lists all, fun nonempty => ofMembers_eq nonempty all, ofNames_eq countsUp all,
    fun operators items written => toMask_eq operators all written⟩, ?_⟩
  rintro mask rfl
  have all : ∀ member ∈ mask.members, member.IsOf mask.vocabulary := fun _ => isOf_of_mem_members
  have again := ofValues_eq mask.map_value_members (forall_mem_values all)
  refine ⟨?_, dif_pos mask.fits, fun nonempty => ?_⟩
  · rw [memberNames, ofNames_eq countsUp all, again]
  · rw [ofMembers_eq (members_ne_nil nonempty) all, again]

/-- Three operators, one of which is listed twice, written by tokens and by names. -/
theorem builders_agree_mixture :
    let members : List Member := [.ofBinOp .shl, .ofBinOp .plus, .ofBinOp .shl, .ofBinOp .logicalAnd]
    let items : List Json.Value := [.text (Text.codePoints "<<".toList),
      .text (Text.codePoints "PLUS".toList), .text (Text.codePoints "SHL".toList),
      .text (Text.codePoints "&&".toList)]
    Vocabulary.binOp.CountsUp ∧ (∀ member ∈ members, member.IsOf .binOp) ∧
      ∃ mask : Mask, ofMembers members = .ok mask ∧
        Overlay.toMask .binOp (.list items) = .ok mask ∧ mask.count = 3 ∧
        mask.contains (.ofBinOp .shl) = .ok true ∧ mask.contains (.ofUnOp .plus) = .ok false := by
  intro members items
  have countsUp : Vocabulary.binOp.CountsUp := by decide
  have all : ∀ member ∈ members, member.IsOf .binOp := by
    simp only [members, List.forall_mem_cons]
    exact ⟨⟨rfl, by decide⟩, ⟨rfl, by decide⟩, ⟨rfl, by decide⟩, ⟨rfl, by decide⟩, nofun⟩
  have written : List.Forall₂ Member.IsWritten members items :=
    .cons (.binOp .shl) (.cons (.name _) (.cons (.name _) (.cons (.binOp .logicalAnd) .nil)))
  obtain ⟨mask, same, lists, ofMembers, _, toMask⟩ := (builders_agree .binOp countsUp).1 members all
  refine ⟨countsUp, all, mask, ofMembers nofun, toMask (.inl rfl) items written, lists.count, ?_, ?_⟩
  · exact lists.contains _ fun _ => by rw [same]; decide
  · exact lists.contains _ fun foreign => by rw [same] at foreign; cases foreign

end Mask
end CExpr
