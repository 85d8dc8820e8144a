import CExpr.Builtin
import CExpr.Text.Numeral
import CExpr.Token.Lexer

/-!
Digits and what runs of them write. Among the ASCII characters the decimal digits are `0` to `9`, so
every other character that an expression is written with ends a run of digits; and the digits of a
natural number are read back as that number.
-/
namespace CExpr.Text

theorem digitZeros_ascii : ∀ start ∈ digitZeros, start = 0x30 ∨ 0x660 ≤ start := by decide

theorem digit_bounds {c : Char} (h : c.isDigit = true) : 48 ≤ c.toNat ∧ c.toNat ≤ 57 := by
  simp only [Char.isDigit, Bool.and_eq_true, decide_eq_true_eq, UInt32.le_iff_toNat_le,
    ge_iff_le] at h
  exact h

theorem digitValue_of_isDigit {c : Char} (h : c.isDigit = true) :
    digitValue? c = some (c.toNat - 48) := by
  have bounds := digit_bounds h
  have within : (0x30 ≤ c.toNat && c.toNat < 0x30 + 10) = true := by simp; omega
  rw [digitValue?, digitZeros, List.find?_cons_of_pos (by exact within)]
  rfl

theorem digitValue_lt {c : Char} {value : Nat} (found : digitValue? c = some value) :
    value < 10 := by
  obtain ⟨start, script, rfl⟩ := Option.map_eq_some_iff.mp found
  have within := List.find?_some script
  simp only [Bool.and_eq_true, decide_eq_true_eq] at within
  omega

theorem isDigit_of_isDigit {c : Char} (h : c.isDigit = true) : isDigit c = true := by
  rw [isDigit, digitValue_of_isDigit h]
  rfl

theorem isDigit_eq_false {c : Char} (ascii : c.toNat < 128)
    (other : c.toNat < 48 ∨ 57 < c.toNat) : isDigit c = false := by
  have absent : digitZeros.find? (fun start => start ≤ c.toNat && c.toNat < start + 10) = none := by
    apply List.find?_eq_none.mpr
    intro start member
    have := digitZeros_ascii start member
    simp
    omega
  rw [isDigit, digitValue?, absent]
  rfl

theorem startsIdentifier_bounds {c : Char} (starts : startsIdentifier c = true) :
    c.toNat = 95 ∨ (65 ≤ c.toNat ∧ c.toNat ≤ 90) ∨ (97 ≤ c.toNat ∧ c.toNat ≤ 122) := by
  rcases Bool.or_eq_true_iff.mp starts with letter | underscore
  · rcases Bool.or_eq_true_iff.mp letter with upper | lower
    · exact .inr (.inl (of_decide_eq_true upper))
    · obtain ⟨above, below⟩ := Bool.and_eq_true_iff.mp lower
      exact .inr (.inr ⟨of_decide_eq_true above, of_decide_eq_true below⟩)
  · exact .inl (congrArg Char.toNat (of_decide_eq_true underscore))

theorem isDigit_of_startsIdentifier {c : Char} (starts : startsIdentifier c = true) :
    isDigit c = false := by
  have bounds := startsIdentifier_bounds starts
  exact isDigit_eq_false (by omega) (by omega)

/-! A run of digits in front of a text that does not go on with a digit is taken whole. -/
section Runs

variable {p : Char → Bool} {run rest : List Char}

theorem head_fails {c : Char} (other : p c = false) (tail : List Char) :
    ∀ d ∈ (c :: tail).head?, p d = false := by
  rintro d ⟨⟩
  exact other

theorem takeWhile_run (inside : ∀ c ∈ run, p c = true) (stops : ∀ c ∈ rest.head?, p c = false) :
    (run ++ rest).takeWhile p = run := by
  rw [List.takeWhile_append_of_pos inside]
  cases rest with
  | nil => simp
  | cons c tail => simp [stops c rfl]

theorem dropWhile_run (inside : ∀ c ∈ run, p c = true) (stops : ∀ c ∈ rest.head?, p c = false) :
    (run ++ rest).dropWhile p = rest := by
  rw [List.dropWhile_append_of_pos inside]
  cases rest with
  | nil => rfl
  | cons c tail => simp [stops c rfl]

end Runs

/-! The numbers that runs of ASCII digits write. -/
section Values

def AsciiDigits (digits : List Char) : Prop := ∀ c ∈ digits, c.isDigit = true

theorem AsciiDigits.isDigit {digits : List Char} (ascii : AsciiDigits digits) :
    ∀ c ∈ digits, isDigit c = true :=
  fun c member => isDigit_of_isDigit (ascii c member)

theorem AsciiDigits.append {left right : List Char} (first : AsciiDigits left)
    (second : AsciiDigits right) : AsciiDigits (left ++ right) := by
  intro c member
  rcases List.mem_append.mp member with inLeft | inRight
  · exact first c inLeft
  · exact second c inRight

theorem AsciiDigits.replicate_zero (count : Nat) : AsciiDigits (List.replicate count '0') := by
  intro c member
  rw [List.eq_of_mem_replicate member]
  rfl

theorem ofDigits_eq_ofDigitChars {digits : List Char} (ascii : AsciiDigits digits) :
    ofDigits digits = Nat.ofDigitChars 10 digits 0 := by
  -- Generalised over the value of the digits before, since the fold starts from there.
  have fold : ∀ start, digits.foldl (fun value c => 10 * value + (digitValue? c).getD 0) start =
      Nat.ofDigitChars 10 digits start := by
    induction digits with
    | nil => intro start; rfl
    | cons c rest ih =>
        intro start
        have value := digitValue_of_isDigit (ascii c (by simp))
        rw [List.foldl_cons, ih (fun other member => ascii other (List.mem_cons_of_mem c member)),
          Nat.ofDigitChars_cons, value]
        rfl
  exact fold 0

theorem digitsOf_ascii (value : Nat) : AsciiDigits (digitsOf value) :=
  fun _ member => Nat.isDigit_of_mem_toDigits (by decide) (by decide) member

theorem digitsOf_ne_nil (value : Nat) : digitsOf value ≠ [] := Nat.toDigits_ne_nil

@[simp] theorem ofDigits_digitsOf (value : Nat) : ofDigits (digitsOf value) = value := by
  rw [ofDigits_eq_ofDigitChars (digitsOf_ascii value)]
  exact Nat.ofDigitChars_ten_toDigits

theorem ofDigits_append {left right : List Char} (first : AsciiDigits left)
    (second : AsciiDigits right) :
    ofDigits (left ++ right) = 10 ^ right.length * ofDigits left + ofDigits right := by
  rw [ofDigits_eq_ofDigitChars (first.append second), ofDigits_eq_ofDigitChars first,
    ofDigits_eq_ofDigitChars second, Nat.ofDigitChars_append, Nat.ofDigitChars_eq_ofDigitChars_zero]

@[simp] theorem ofDigits_replicate_zero (count : Nat) :
    ofDigits (List.replicate count '0') = 0 := by
  rw [ofDigits_eq_ofDigitChars (.replicate_zero count), Nat.ofDigitChars_replicate_zero,
    Nat.mul_zero]

theorem ofDigits_lt (digits : List Char) : ofDigits digits < 10 ^ digits.length := by
  -- Generalised over the value of the digits before, since the fold starts from there.
  have fold : ∀ start, digits.foldl (fun value c => 10 * value + (digitValue? c).getD 0) start <
      (start + 1) * 10 ^ digits.length := by
    induction digits with
    | nil => simp
    | cons c rest ih =>
        intro start
        have digit : (digitValue? c).getD 0 < 10 := by
          cases found : digitValue? c with
          | none => exact Nat.zero_lt_succ _
          | some value => exact digitValue_lt found
        have next : 10 * start + (digitValue? c).getD 0 + 1 ≤ (start + 1) * 10 := by omega
        calc rest.foldl _ (10 * start + (digitValue? c).getD 0)
          _ < (10 * start + (digitValue? c).getD 0 + 1) * 10 ^ rest.length := ih _
          _ ≤ (start + 1) * 10 * 10 ^ rest.length := Nat.mul_le_mul_right _ next
          _ = (start + 1) * 10 ^ (c :: rest).length := by
            rw [List.length_cons, Nat.pow_succ, Nat.mul_assoc, Nat.mul_comm 10]
  have whole := fold 0
  rw [Nat.zero_add, Nat.one_mul] at whole
  exact whole

theorem length_digitsOf_ofDigits {digits : List Char} (nonempty : digits ≠ []) :
    (digitsOf (ofDigits digits)).length ≤ digits.length :=
  (Nat.length_toDigits_le_iff (by decide) (List.length_pos_iff.mpr nonempty)).mpr
    (ofDigits_lt digits)

end Values

end CExpr.Text
