import CExpr.Proofs.Json.LongInteger

/-!
Values whose integers are short enough to be written in decimal, wherever in the value they stand. All
values that are read from a text are of this kind, as longer numerals are not converted.
-/
namespace CExpr.Json
open Text

def isShort (value : Int) : Bool := (digitsOf value.natAbs).length ≤ maxDigits

mutual

def Value.integers : Value → List Int
  | .integer value => [value]
  | .list items => itemIntegers items
  | .object entries => entryIntegers entries
  | .null | .truth _ | .number _ | .text _ => []

def itemIntegers : List Value → List Int
  | [] => []
  | item :: rest => item.integers ++ itemIntegers rest

def entryIntegers : List (List Nat × Value) → List Int
  | [] => []
  | (_, value) :: rest => value.integers ++ entryIntegers rest

end

def Value.Short (value : Value) : Prop := ∀ found ∈ value.integers, isShort found = true

theorem isShort_iff {value : Int} : isShort value = true ↔ value.natAbs < 10 ^ maxDigits := by
  have positive : 0 < maxDigits := by decide
  rw [isShort, decide_eq_true_iff, digitsOf, Nat.length_toDigits_le_iff (by decide) positive]

namespace Value

variable {items : List Value} {entries : List (List Nat × Value)}

theorem short_integer {value : Int} : (integer value).Short ↔ isShort value = true := by
  simp [Short, integers]

theorem short_list : (list items).Short ↔ ∀ item ∈ items, item.Short := by
  induction items with
  | nil => simp [Short, integers, itemIntegers]
  | cons item rest ih =>
      rw [List.forall_mem_cons, ← ih]
      exact List.forall_mem_append

theorem short_object : (object entries).Short ↔ ∀ entry ∈ entries, entry.2.Short := by
  induction entries with
  | nil => simp [Short, integers, entryIntegers]
  | cons entry rest ih =>
      rw [List.forall_mem_cons, ← ih]
      exact List.forall_mem_append

end Value

def Yields {α : Type} (Holds : α → Prop) : Except ReadError α → Prop
  | .ok a => Holds a
  | .error _ => True

namespace Yields

variable {α β : Type} {Holds Later : α → Prop} {After : β → Prop} {outcome : Except ReadError α}
  {next : α → Except ReadError β}

theorem bind (first : Yields Holds outcome) (later : ∀ a, Holds a → Yields After (next a)) :
    Yields After (outcome >>= next) := by
  cases outcome with
  | error e => trivial
  | ok a => exact later a first

theorem bind_any (later : ∀ a, Yields After (next a)) : Yields After (outcome >>= next) := by
  cases outcome with
  | error e => trivial
  | ok a => exact later a

end Yields

theorem readDigits_lt {digits : List Char} {magnitude : Nat}
    (read : readDigits digits = .ok magnitude) : magnitude < 10 ^ maxDigits := by
  unfold readDigits at read
  split at read
  · rename_i few
    cases read
    -- The limit is kept from being computed.
    generalize maxDigits = limit at few ⊢
    exact Nat.lt_of_lt_of_le (ofDigits_lt digits) (Nat.pow_le_pow_right (by decide) few)
  · cases read

theorem number?_short {text : List Char} {outcome : Except ReadError Value} {length : Nat}
    (found : number? text = some (outcome, length)) : Yields Value.Short outcome := by
  unfold number? at found
  dsimp only at found
  generalize text.drop (if text.head? = some '-' then 1 else 0) = unsigned at found
  split at found
  · cases found
  · cases found
    split
    · split
      · rename_i magnitude read
        have small := readDigits_lt read
        refine Value.short_integer.mpr (isShort_iff.mpr ?_)
        split
        · rwa [Int.natAbs_neg, Int.natAbs_natCast]
        · rwa [Int.natAbs_natCast]
      · trivial
    · nofun

theorem literals_short : ∀ literal ∈ literals, literal.2.Short := by
  simp [literals, Value.Short, Value.integers]

theorem put_short {key : List Nat} {value : Value} {entries : List (List Nat × Value)}
    (short : value.Short) (others : ∀ entry ∈ entries, entry.2.Short) :
    ∀ entry ∈ put key value entries, entry.2.Short := by
  induction entries with
  | nil => exact List.forall_mem_singleton.mpr short
  | cons entry rest ih =>
      obtain ⟨here, behind⟩ := List.forall_mem_cons.mp others
      rw [put]
      split
      · exact List.forall_mem_cons.mpr ⟨short, behind⟩
      · exact List.forall_mem_cons.mpr ⟨here, ih behind⟩

/-! The recursion is that of the reader; how far a cursor has come is only said for it to end. -/
mutual

theorem value_short (cursor : Cursor) : Yields (fun result => result.1.Short) (value cursor) := by
  rw [value]
  split
  · trivial
  · rename_i first rest front
    have nonempty : cursor.rest ≠ [] := by simp [front]
    have shorter := cursor.next_lt 0 nonempty
    dsimp only
    split
    · exact Yields.bind_any fun _ => nofun
    · split
      · split
        · exact nofun
        · exact (items_short _).bind fun _ short => Value.short_list.mpr short
      · split
        · split
          · exact nofun
          · exact (entries_short _ [] nofun).bind fun _ short => Value.short_object.mpr short
        · split
          · rename_i known
            exact literals_short _ (List.mem_of_find?_eq_some known)
          · split
            · rename_i found length numbered
              exact (number?_short numbered).bind fun _ short => short
            · trivial
termination_by (cursor.rest.length, 0)

theorem items_short (cursor : Cursor) :
    Yields (fun result => ∀ item ∈ result.1, item.Short) (items cursor) := by
  rw [items]
  refine (value_short cursor).bind fun ⟨item, next⟩ here => ?_
  have shorter : next.val.skipBlanks.rest.length < cursor.rest.length :=
    Nat.lt_of_le_of_lt (Cursor.skipBlanks_le _) next.property
  dsimp only
  split
  · exact List.forall_mem_singleton.mpr here
  · rename_i rest front
    have further := Nat.lt_trans (Cursor.next_lt _ 0 (by simp [front])) shorter
    exact (items_short _).bind fun _ others => List.forall_mem_cons.mpr ⟨here, others⟩
  · trivial
termination_by (cursor.rest.length, 1)

theorem entries_short (cursor : Cursor) (before : List (List Nat × Value))
    (short : ∀ entry ∈ before, entry.2.Short) :
    Yields (fun result => ∀ entry ∈ result.1, entry.2.Short) (entries cursor before) := by
  rw [entries]
  split
  · rename_i rest front
    have nonempty : cursor.rest ≠ [] := by simp [front]
    refine Yields.bind_any fun ⟨key, length⟩ => ?_
    have shorter := cursor.next_lt length nonempty
    dsimp only
    split
    · rename_i rest front
      have startShorter := Nat.lt_trans (Cursor.next_lt _ 0 (by simp [front])) shorter
      refine (value_short _).bind fun ⟨found, next⟩ here => ?_
      have afterShorter := Nat.lt_of_le_of_lt (Cursor.skipBlanks_le next.val)
        (Nat.lt_trans next.property startShorter)
      dsimp only
      split
      · exact put_short here short
      · rename_i rest front
        have further := Nat.lt_trans (Cursor.next_lt _ 0 (by simp [front])) afterShorter
        exact (entries_short _ _ (put_short here short)).bind fun _ all => all
      · trivial
    · trivial
  · trivial
termination_by (cursor.rest.length, 1)

end

/-- Every value that is read from a text has short integers only. -/
theorem read_short {text : List Char} {found : Value} (returned : read text = .ok found) :
    found.Short := by
  have short : Yields Value.Short (read text) := by
    unfold read
    split
    · trivial
    · refine (value_short _).bind fun _ short => ?_
      dsimp only
      split
      · exact short
      · trivial
  rw [returned] at short
  exact short

end CExpr.Json
