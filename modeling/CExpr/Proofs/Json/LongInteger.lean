import CExpr.Json.Reader
import CExpr.Proofs.Outcome
import CExpr.Proofs.Text.Digits
import Mathlib.Data.List.TakeWhile

/-!
The one way in which reading JSON breaks off without naming a fault: at an integer with more digits than
are converted. Wherever the reader has come to by then, these digits stand in the text in a row.
-/
namespace CExpr.Json
open Text

/-- This many digits stand in a row somewhere in a text, more than are converted. -/
structure HasLongRun (text : List Char) (count : Nat) : Prop where
  long : maxDigits < count
  run : ∃ digits, digits <:+: text ∧ AsciiDigits digits ∧ digits.length = count

/-- How a part of the reader may end on a text: it succeeds and leaves an end of the text, or it finds a
fault, or it has come to a long run of digits in the text. -/
def Ends {α : Type} (text : List Char) (left : α → List Char) : Except ReadError α → Prop
  | .ok a => left a <:+ text
  | .error (.fault _ _) => True
  | .error (.tooManyDigits numeral) => HasLongRun text numeral.count

namespace Ends

variable {α β : Type} {text behind : List Char} {left : α → List Char} {rest : β → List Char}

theorem of_suffix {outcome : Except ReadError α} (suffix : behind <:+ text)
    (ends : Ends behind left outcome) : Ends text left outcome := by
  match outcome, ends with
  | .ok a, further => exact further.trans suffix
  | .error (.fault _ _), _ => trivial
  | .error (.tooManyDigits numeral), ⟨long, digits, inside, run⟩ =>
      exact ⟨long, digits, inside.trans suffix.isInfix, run⟩

theorem bind {first : Except ReadError α} {next : α → Except ReadError β}
    (ends : Ends text left first) (later : ∀ a, Ends (left a) rest (next a)) :
    Ends text rest (first >>= next) := by
  match first, ends with
  | .ok a, further => exact (later a).of_suffix further
  | .error (.fault _ _), _ => trivial
  | .error (.tooManyDigits _), found => exact found

end Ends

namespace Cursor

variable (cursor : Cursor)

theorem advance_suffix (count : Nat) : (cursor.advance count).rest <:+ cursor.rest :=
  List.drop_suffix count cursor.rest

theorem skipBlanks_suffix : cursor.skipBlanks.rest <:+ cursor.rest := cursor.advance_suffix _

theorem next_suffix (count : Nat) : (cursor.advance count).skipBlanks.rest <:+ cursor.rest :=
  (cursor.advance count).skipBlanks_suffix.trans (cursor.advance_suffix count)

theorem next_lt (count : Nat) (nonempty : cursor.rest ≠ []) :
    (cursor.advance (count + 1)).skipBlanks.rest.length < cursor.rest.length :=
  Nat.lt_of_le_of_lt (skipBlanks_le _) (cursor.advance_lt count nonempty)

end Cursor

theorem lowHalf?_ends (position : Nat) (text whole : List Char) :
    Ends whole (fun _ => whole) (lowHalf? position text) := by
  unfold lowHalf?
  split
  · split
    · exact List.suffix_rfl
    · trivial
  · exact List.suffix_rfl

theorem stringRest_ends (start position : Nat) (text whole : List Char) :
    Ends whole (fun _ => whole) (stringRest start position text) := by
  fun_induction stringRest start position text with
  | case2 => exact List.suffix_rfl
  | case6 _ _ _ _ _ _ _ _ _ _ joined apart =>
      refine (lowHalf?_ends _ _ whole).bind fun low => ?_
      cases low with
      | some low => exact joined.bind fun _ => List.suffix_rfl
      | none => exact apart.bind fun _ => List.suffix_rfl
  | case7 _ _ _ _ _ _ _ _ _ _ later | case9 _ _ _ _ _ _ later | case12 _ _ _ _ _ _ later =>
      exact later.bind fun _ => List.suffix_rfl
  | case1 | case3 | case4 | case5 | case8 | case10 | case11 => trivial

theorem integerLength_digits (text : List Char) : AsciiDigits (text.take (integerLength text)) := by
  unfold integerLength
  split
  · intro c member
    rw [List.take_succ_cons, List.take_zero] at member
    rw [List.mem_singleton.mp member]
    rfl
  · rename_i unsigned _
    rw [← List.prefix_iff_eq_take.mp (List.takeWhile_prefix _)]
    exact fun c member => List.mem_takeWhile_imp member

theorem readDigits_error {digits : List Char} {numeral : TooManyDigits}
    (refused : readDigits digits = .error numeral) :
    numeral.count = digits.length ∧ maxDigits < digits.length := by
  unfold readDigits at refused
  split at refused
  · cases refused
  · cases refused
    exact ⟨rfl, by omega⟩

/-- The digits of an integer are in front of what is left of the text, but for a sign. -/
theorem number?_ends {text : List Char} {outcome : Except ReadError Value} {length : Nat}
    (found : number? text = some (outcome, length)) : Ends text (fun _ => text) outcome := by
  unfold number? at found
  dsimp only at found
  generalize unsigned : text.drop (if text.head? = some '-' then 1 else 0) = behind at found
  have suffix : behind <:+ text := unsigned ▸ List.drop_suffix _ _
  split at found
  · cases found
  · cases found
    split
    · split
      · exact List.suffix_rfl
      · rename_i numeral refused
        obtain ⟨count, long⟩ := readDigits_error refused
        refine ⟨count ▸ long, _, ?_, integerLength_digits behind, count.symm⟩
        exact (List.take_prefix _ _).isInfix.trans suffix.isInfix
    · exact List.suffix_rfl

mutual

theorem value_ends (cursor : Cursor) :
    Ends cursor.rest (fun result => result.2.val.rest) (value cursor) := by
  rw [value]
  split
  · trivial
  · rename_i first rest front
    have nonempty : cursor.rest ≠ [] := by simp [front]
    have shorter := cursor.next_lt 0 nonempty
    have inside := cursor.next_suffix 1
    dsimp only
    split
    · refine (stringRest_ends _ _ _ cursor.rest).bind fun _ => ?_
      exact cursor.advance_suffix _
    · split
      · split
        · exact (Cursor.advance_suffix _ _).trans inside
        · refine ((items_ends _).of_suffix inside).bind fun _ => ?_
          exact List.suffix_rfl
      · split
        · split
          · exact (Cursor.advance_suffix _ _).trans inside
          · refine ((entries_ends _ []).of_suffix inside).bind fun _ => ?_
            exact List.suffix_rfl
        · split
          · exact cursor.advance_suffix _
          · split
            · rename_i found length numbered
              refine (number?_ends numbered).bind fun _ => ?_
              exact cursor.advance_suffix _
            · trivial
termination_by (cursor.rest.length, 0)

theorem items_ends (cursor : Cursor) :
    Ends cursor.rest (fun result => result.2.val.rest) (items cursor) := by
  rw [items]
  refine (value_ends cursor).bind fun ⟨item, next⟩ => ?_
  have after := next.val.skipBlanks_suffix
  have shorter : next.val.skipBlanks.rest.length < cursor.rest.length :=
    Nat.lt_of_le_of_lt (Cursor.skipBlanks_le _) next.property
  dsimp only
  split
  · exact (Cursor.advance_suffix _ _).trans after
  · rename_i rest front
    have further := Nat.lt_trans (Cursor.next_lt _ 0 (by simp [front])) shorter
    refine ((items_ends _).of_suffix ((Cursor.next_suffix _ 1).trans after)).bind fun _ => ?_
    exact List.suffix_rfl
  · trivial
termination_by (cursor.rest.length, 1)

theorem entries_ends (cursor : Cursor) (before : List (List Nat × Value)) :
    Ends cursor.rest (fun result => result.2.val.rest) (entries cursor before) := by
  rw [entries]
  split
  · rename_i rest front
    have nonempty : cursor.rest ≠ [] := by simp [front]
    refine (stringRest_ends _ _ _ cursor.rest).bind fun ⟨key, length⟩ => ?_
    have colon := cursor.next_suffix (length + 1)
    have shorter := cursor.next_lt length nonempty
    dsimp only
    split
    · rename_i rest front
      have startShorter := Nat.lt_trans (Cursor.next_lt _ 0 (by simp [front])) shorter
      refine ((value_ends _).of_suffix ((Cursor.next_suffix _ 1).trans colon)).bind
        fun ⟨found, next⟩ => ?_
      have after := next.val.skipBlanks_suffix
      have afterShorter := Nat.lt_of_le_of_lt (Cursor.skipBlanks_le next.val)
        (Nat.lt_trans next.property startShorter)
      dsimp only
      split
      · exact (Cursor.advance_suffix _ _).trans after
      · rename_i rest front
        have further := Nat.lt_trans (Cursor.next_lt _ 0 (by simp [front])) afterShorter
        refine ((entries_ends _ _).of_suffix ((Cursor.next_suffix _ 1).trans after)).bind fun _ => ?_
        exact List.suffix_rfl
      · trivial
    · trivial
  · trivial
termination_by (cursor.rest.length, 1)

end

/-- Reading breaks off at integers with too many digits only, and the digits are in the text. -/
theorem hasLongRun_of_read {text : List Char} {numeral : TooManyDigits}
    (broken : read text = .error (.tooManyDigits numeral)) : HasLongRun text numeral.count := by
  have ends : Ends text (fun _ => []) (read text) := by
    unfold read
    split
    · trivial
    · refine ((value_ends _).of_suffix (Cursor.skipBlanks_suffix ⟨0, text⟩)).bind fun _ => ?_
      dsimp only
      split
      · exact List.nil_suffix
      · trivial
  rw [broken] at ends
  exact ends

theorem number?_ones {count : Nat} (long : maxDigits < count) :
    number? (List.replicate count '1') = some (.error (.tooManyDigits ⟨count⟩), count) := by
  have run : (List.replicate count '1').takeWhile Char.isDigit = List.replicate count '1' := by
    rw [List.takeWhile_eq_self_iff]
    intro c member
    rw [List.eq_of_mem_replicate member]
    rfl
  have refused : readDigits (List.replicate count '1') = .error ⟨count⟩ := by
    rw [readDigits, List.length_replicate, if_neg (by omega)]
  cases count with
  | zero => cases long
  | succ more =>
      have whole : integerLength (List.replicate (more + 1) '1') = more + 1 := by
        rw [List.replicate_succ] at run ⊢
        rw [integerLength, run]
        · simp
        · intro rest same
          cases same
      simp [number?, List.head?_replicate, whole, fractionLength, exponentLength, refused]

theorem read_ones {count : Nat} (long : maxDigits < count) :
    read (List.replicate count '1') = .error (.tooManyDigits ⟨count⟩) := by
  have numbered := number?_ones long
  cases count with
  | zero => cases long
  | succ more =>
      rw [List.replicate_succ] at numbered ⊢
      generalize List.replicate more '1' = rest at numbered
      have plain : literals.find? (·.1.isPrefixOf ('1' :: rest)) = none := rfl
      have start : value ⟨0, '1' :: rest⟩ = .error (.tooManyDigits ⟨more + 1⟩) := by
        rw [value]
        split
        · rename_i h
          cases h
        · rename_i first behind h
          cases h
          rw [if_neg (by decide), if_neg (by decide), if_neg (by decide)]
          simp only [plain, numbered]
          rfl
      unfold read
      rw [if_neg (by simp)]
      change (value ⟨0, '1' :: rest⟩ >>= _) = _
      rw [start]
      rfl

end CExpr.Json
