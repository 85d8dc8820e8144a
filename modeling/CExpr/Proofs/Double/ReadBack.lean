import CExpr.Double.Shortest
import CExpr.Proofs.Double.Exact
import CExpr.Proofs.Text.Digits

/-!
The text of a double reads back as that double. The shortest decimal reads back because every
candidate was tried; what is left is that taking zeros off its digits and laying it out, with a
point or with an exponent, changes nothing about the number that is written.
-/
namespace CExpr.Double
open Text

def HasSign (negative : Bool) (value : Double) : Prop :=
  (∃ units fits, value = finite negative units fits) ∨ value = infinite negative

theorem ofUnits_hasSign (negative : Bool) (num den : Nat) :
    HasSign negative (ofUnits negative num den) := by
  unfold ofUnits
  split
  · exact .inl ⟨_, _, rfl⟩
  · exact .inr rfl

theorem ofDecimal_hasSign (negative : Bool) (digits : Nat) (exponent : Int) :
    HasSign negative (ofDecimal negative digits exponent) := by
  unfold ofDecimal
  split
  · exact .inl ⟨_, _, rfl⟩
  · split
    · exact .inr rfl
    · split
      · exact .inl ⟨_, _, rfl⟩
      · exact ofUnits_hasSign _ _ _

theorem ofNumeral_hasSign (negative : Bool) (text : List Char) :
    HasSign negative (ofNumeral negative text) := by
  unfold ofNumeral
  dsimp only
  split <;> exact ofDecimal_hasSign _ _ _

theorem ofDecimal_of_readsBack {units digits : Nat} {exponent : Int} (fits : Representable units)
    (tried : readsBack units digits exponent = true) :
    ofDecimal false digits exponent = finite false units fits := by
  unfold readsBack at tried
  rcases ofDecimal_hasSign false digits exponent with ⟨read, readFits, same⟩ | same
  · rw [same] at tried
    cases of_decide_eq_true tried
    exact same
  · rw [same] at tried
    cases tried

/-- Of two neighbours that both read back the nearer one is taken, and it is one of the two. -/
theorem readsBack_of_decimalAt {units expansion length places digits : Nat} {exponent : Int}
    (found : decimalAt? units expansion length places = some (digits, exponent)) :
    readsBack units digits exponent = true := by
  unfold decimalAt? at found
  dsimp only at found
  split at found
  case h_1 below above =>
      simp only [Option.some.injEq, Prod.mk.injEq] at found
      obtain ⟨rfl, rfl⟩ := found
      rcases roundQuotient_eq_or expansion (10 ^ (length - places)) with down | up
      · rw [down]
        exact below
      · rw [up]
        exact above
  case h_2 below above =>
      simp only [Option.some.injEq, Prod.mk.injEq] at found
      obtain ⟨rfl, rfl⟩ := found
      exact below
  case h_3 below above =>
      simp only [Option.some.injEq, Prod.mk.injEq] at found
      obtain ⟨rfl, rfl⟩ := found
      exact above
  case h_4 => cases found

theorem ofDecimal_scaledExpansion {units : Nat} (fits : Representable units) (nonzero : units ≠ 0) :
    ofDecimal false (scaledExpansion units) (-1074) = finite false units fits := by
  have power : ∀ base : Nat, 0 < base → ∀ places, 0 < base ^ places := fun _ positive _ => Nat.pow_pos positive
  have expanded : scaledExpansion units ≠ 0 :=
    Nat.mul_ne_zero nonzero (Nat.ne_of_gt (power 5 (by decide) 1074))
  have ratio := ofDecimal_eq_ofRatio false (scaledExpansion units) (-1074) expanded
  have whole : Int.toNat (-1074) = 0 := by decide
  have places : Int.toNat (- -1074) = 1074 := by decide
  rw [whole, places, Nat.pow_zero, Nat.mul_one] at ratio
  rw [ratio, ofRatio, scaledExpansion, Nat.mul_assoc, five_pow_mul_unitsPerOne]
  exact ofUnits_of_representable false fits _ (power 10 (by decide) 1074)

theorem ofDecimal_shortestDecimal {units : Nat} (fits : Representable units) (nonzero : units ≠ 0) :
    ofDecimal false (shortestDecimal units).1 (shortestDecimal units).2 =
      finite false units fits := by
  rw [shortestDecimal]
  cases found : (List.range 17).findSome? fun places => decimalAt? units (scaledExpansion units)
      (digitsOf (scaledExpansion units)).length (places + 1) with
  | none =>
      -- No candidate: then the exact expansion itself is what is written.
      rw [Option.getD_none]
      exact ofDecimal_scaledExpansion fits nonzero
  | some decimal =>
      obtain ⟨places, _, candidate⟩ := List.exists_of_findSome?_eq_some found
      exact ofDecimal_of_readsBack fits (readsBack_of_decimalAt candidate)

/-! Digits without the zeros at their end. -/
section Significant

theorem significant_spec (digits : Nat) (exponent : Int) :
    ∃ places : Nat, digitsOf digits = (significant digits exponent).1 ++ zeros places ∧
      (significant digits exponent).2 = exponent + places := by
  -- Split the written digits behind the last one that is not zero, looking from the end.
  let zero : Char → Bool := (· = '0')
  let written := digitsOf digits
  let dropped := written.reverse.takeWhile zero
  have split : written = (written.reverse.dropWhile zero).reverse ++ dropped.reverse := by
    rw [← List.reverse_append, List.takeWhile_append_dropWhile, List.reverse_reverse]
  have onlyZeros : dropped.reverse = zeros dropped.length := by
    rw [zeros, ← List.length_reverse]
    apply List.eq_replicate_of_mem
    intro c member
    have all : dropped.all zero = true := List.all_takeWhile
    exact of_decide_eq_true (List.all_eq_true.mp all c (List.mem_reverse.mp member))
  refine ⟨dropped.length, ?_, ?_⟩
  · rw [← onlyZeros]
    exact split
  · have lengths : written.length =
        (written.reverse.dropWhile zero).reverse.length + dropped.length := by
      have whole := congrArg List.length split
      rwa [List.length_append, dropped.length_reverse] at whole
    have count : written.length - (written.reverse.dropWhile zero).reverse.length =
        dropped.length := by omega
    rw [← count]
    rfl

theorem significant_ascii (digits : Nat) (exponent : Int) :
    AsciiDigits (significant digits exponent).1 := by
  obtain ⟨places, written, _⟩ := significant_spec digits exponent
  intro c member
  exact digitsOf_ascii digits c (written ▸ List.mem_append_left _ member)

theorem zeros_ascii (count : Nat) : AsciiDigits (zeros count) := .replicate_zero count

theorem ofDigits_zeros (count : Nat) : ofDigits (zeros count) = 0 := ofDigits_replicate_zero count

theorem ofDigits_append_zeros {digits : List Char} (ascii : AsciiDigits digits) (count : Nat) :
    ofDigits (digits ++ zeros count) = ofDigits digits * 10 ^ count := by
  rw [ofDigits_append ascii (zeros_ascii count), ofDigits_zeros, zeros, List.length_replicate,
    Nat.add_zero, Nat.mul_comm]

theorem ofDigits_zeros_append {digits : List Char} (ascii : AsciiDigits digits) (count : Nat) :
    ofDigits (zeros count ++ digits) = ofDigits digits := by
  rw [ofDigits_append (zeros_ascii count) ascii, ofDigits_zeros, Nat.mul_zero, Nat.zero_add]

theorem significant_ne_nil {digits : Nat} (exponent : Int) (nonzero : digits ≠ 0) :
    (significant digits exponent).1 ≠ [] := by
  intro empty
  obtain ⟨places, written, _⟩ := significant_spec digits exponent
  apply nonzero
  rw [← ofDigits_digitsOf digits, written, empty, List.nil_append, ofDigits_zeros]

theorem ofDecimal_significant (negative : Bool) (digits : Nat) (exponent : Int) :
    ofDecimal negative (ofDigits (significant digits exponent).1)
      (significant digits exponent).2 = ofDecimal negative digits exponent := by
  obtain ⟨places, written, shifted⟩ := significant_spec digits exponent
  have value : ofDigits (significant digits exponent).1 * 10 ^ places = digits := by
    rw [← ofDigits_append_zeros (significant_ascii digits exponent), ← written, ofDigits_digitsOf]
  rw [shifted, ← ofDecimal_mul_ten_pow, value]

end Significant

/-! The forms in which a double is written. -/
section Forms

inductive ExponentText : List Char → Int → Prop
  | absent : ExponentText [] 0
  | plus {digits : List Char} : AsciiDigits digits → digits ≠ [] →
      ExponentText ('e' :: '+' :: digits) (ofDigits digits)
  | minus {digits : List Char} : AsciiDigits digits → digits ≠ [] →
      ExponentText ('e' :: '-' :: digits) (-(ofDigits digits : Int))

/-- A numeral that has a point or an exponent, with the digits it writes and the power of ten of the
last of them. -/
inductive DecimalText : List Char → Nat → Int → Prop
  | pointed {whole fraction tail : List Char} {power : Int} : AsciiDigits whole → whole ≠ [] →
      AsciiDigits fraction → ExponentText tail power →
      DecimalText (whole ++ '.' :: (fraction ++ tail)) (ofDigits (whole ++ fraction))
        (power - fraction.length)
  | bare {whole tail : List Char} {power : Int} : AsciiDigits whole → whole ≠ [] →
      ExponentText tail power → tail ≠ [] → DecimalText (whole ++ tail) (ofDigits whole) power

theorem ExponentText.exponentPart {tail : List Char} {power : Int}
    (form : ExponentText tail power) : exponentPart tail = power := by
  cases form <;> rfl

theorem ExponentText.head {tail : List Char} {power : Int} (form : ExponentText tail power) :
    ∀ c ∈ tail.head?, c = 'e' := by
  cases form <;> simp

theorem ExponentText.stops {tail : List Char} {power : Int} (form : ExponentText tail power) :
    ∀ c ∈ tail.head?, isDigit c = false := by
  intro c first
  rw [form.head c first]
  decide

theorem DecimalText.ofNumeral {text : List Char} {digits : Nat} {exponent : Int}
    (form : DecimalText text digits exponent) (negative : Bool) :
    ofNumeral negative text = ofDecimal negative digits exponent := by
  cases form with
  | @pointed whole fraction tail power wholeAscii _ fractionAscii tailForm =>
      have point : ∀ c ∈ ('.' :: (fraction ++ tail)).head?, isDigit c = false :=
        head_fails (by decide) _
      rw [Double.ofNumeral, dropWhile_run wholeAscii.isDigit point,
        takeWhile_run wholeAscii.isDigit point]
      simp only [takeWhile_run fractionAscii.isDigit tailForm.stops,
        dropWhile_run fractionAscii.isDigit tailForm.stops, tailForm.exponentPart]
  | @bare whole tail power wholeAscii _ tailForm nonempty =>
      rw [Double.ofNumeral, dropWhile_run wholeAscii.isDigit tailForm.stops,
        takeWhile_run wholeAscii.isDigit tailForm.stops]
      cases tailForm with
      | absent => exact absurd rfl nonempty
      | plus | minus => rfl

end Forms

/-! The layouts of given digits. -/
section Layouts

variable {digits : List Char} {exponent : Int}

/-- A layout of digits: a written decimal that stands for the same double as the digits do. -/
def Lays (text digits : List Char) (exponent : Int) : Prop :=
  ∃ count power, DecimalText text count power ∧
    ofDecimal false count power = ofDecimal false (ofDigits digits) exponent

theorem filled_lays (ascii : AsciiDigits digits) (nonempty : digits ≠ []) (count : Nat) :
    Lays (digits ++ zeros count ++ ['.', '0']) digits count := by
  have filled : AsciiDigits (digits ++ zeros count) := ascii.append (zeros_ascii _)
  refine ⟨_, _, .pointed filled (by simp [nonempty]) (zeros_ascii 1) .absent, ?_⟩
  have value :
      ofDigits (digits ++ zeros count ++ zeros 1) = ofDigits digits * 10 ^ (count + 1) := by
    rw [ofDigits_append_zeros filled, ofDigits_append_zeros ascii, Nat.mul_assoc, ← Nat.pow_add]
  -- The zero behind the point is one place more, and one power of ten less.
  have back : 0 - ((zeros 1).length : Int) + (count + 1 : Nat) = count := by
    simp only [zeros, List.length_replicate]
    omega
  rw [value, ofDecimal_mul_ten_pow, back]

theorem parted_lays (ascii : AsciiDigits digits) {places : Nat} (inside : places < digits.length) :
    Lays (digits.take (digits.length - places) ++ '.' :: digits.drop (digits.length - places))
      digits (-places) := by
  let front := digits.length - places
  have frontAscii : AsciiDigits (digits.take front) :=
    fun c member => ascii c (List.mem_of_mem_take member)
  have backAscii : AsciiDigits (digits.drop front) :=
    fun c member => ascii c (List.mem_of_mem_drop member)
  have frontSome : digits.take front ≠ [] := by
    apply List.ne_nil_of_length_pos
    rw [List.length_take]
    omega
  have form := DecimalText.pointed frontAscii frontSome backAscii .absent
  rw [List.append_nil] at form
  refine ⟨_, _, form, ?_⟩
  have power : 0 - ((digits.drop front).length : Int) = -places := by
    rw [List.length_drop]
    omega
  rw [List.take_append_drop, power]

theorem shifted_lays (ascii : AsciiDigits digits) {places : Nat}
    (outside : digits.length ≤ places) :
    Lays ('0' :: '.' :: zeros (places - digits.length) ++ digits) digits (-places) := by
  let filled := zeros (places - digits.length) ++ digits
  have filledAscii : AsciiDigits filled := (zeros_ascii _).append ascii
  have form := DecimalText.pointed (zeros_ascii 1) (by simp [zeros]) filledAscii .absent
  rw [List.append_nil] at form
  refine ⟨_, _, form, ?_⟩
  have power : 0 - (filled.length : Int) = -places := by
    simp only [filled, zeros, List.length_append, List.length_replicate]
    omega
  -- All zeros, those before the point included, are in front of the digits.
  rw [ofDigits_zeros_append filledAscii, ofDigits_zeros_append ascii, power]

theorem positional_lays (ascii : AsciiDigits digits) (nonempty : digits ≠ []) :
    Lays (positional digits exponent) digits exponent := by
  unfold positional
  by_cases whole : 0 ≤ exponent
  · have count : (exponent.toNat : Int) = exponent := Int.toNat_of_nonneg whole
    have lays := filled_lays ascii nonempty exponent.toNat
    rw [count] at lays
    rwa [if_pos whole]
  · have count : -((-exponent).toNat : Int) = exponent := by omega
    rw [if_neg whole]
    dsimp only
    by_cases inside : (-exponent).toNat < digits.length
    · have lays := parted_lays ascii inside
      rw [count] at lays
      rwa [if_pos inside]
    · have lays := shifted_lays ascii (Nat.le_of_not_lt inside)
      rw [count] at lays
      rwa [if_neg inside]

theorem exponent_form (leading : Int) :
    ExponentText ('e' :: (if leading < 0 then '-' else '+') ::
      zeros (2 - (digitsOf leading.natAbs).length) ++ digitsOf leading.natAbs) leading := by
  let written := zeros (2 - (digitsOf leading.natAbs).length) ++ digitsOf leading.natAbs
  have ascii : AsciiDigits written := (zeros_ascii _).append (digitsOf_ascii _)
  have nonempty : written ≠ [] := by simp [written, digitsOf_ne_nil]
  have value : ofDigits written = leading.natAbs := by
    rw [ofDigits_zeros_append (digitsOf_ascii _), ofDigits_digitsOf]
  by_cases negative : leading < 0
  · rw [if_pos negative]
    have same : -(ofDigits written : Int) = leading := by
      rw [value]
      omega
    have form := ExponentText.minus ascii nonempty
    rwa [same] at form
  · rw [if_neg negative]
    have same : (ofDigits written : Int) = leading := by
      rw [value]
      omega
    have form := ExponentText.plus ascii nonempty
    rwa [same] at form

theorem scientific_lays (ascii : AsciiDigits digits) (nonempty : digits ≠ []) :
    Lays (scientific digits (digits.length + exponent - 1)) digits exponent := by
  have tail := exponent_form (digits.length + exponent - 1)
  unfold scientific
  dsimp only
  rw [List.append_assoc]
  match digits, nonempty with
  | [first], nonempty =>
      refine ⟨_, _, .bare ascii nonempty tail (by simp), ?_⟩
      have power : ([first].length : Int) + exponent - 1 = exponent := by
        simp only [List.length_singleton]
        omega
      rw [power]
  | first :: second :: rest, _ =>
      obtain ⟨digit, behind⟩ := List.forall_mem_cons.mp ascii
      have front : AsciiDigits [first] := List.forall_mem_singleton.mpr digit
      refine ⟨_, _, .pointed front (by simp) behind tail, ?_⟩
      have power : ((first :: second :: rest).length : Int) + exponent - 1 -
          ((second :: rest).length : Int) = exponent := by
        simp only [List.length_cons]
        omega
      rw [power]
      rfl

end Layouts

/-- The text of a magnitude is a numeral of the double class that reads back as the magnitude. -/
theorem magnitudeChars_form {units : Nat} (fits : Representable units) :
    ∃ digits exponent, DecimalText (magnitudeChars units) digits exponent ∧
      ofDecimal false digits exponent = finite false units fits := by
  unfold magnitudeChars
  by_cases null : units = 0
  · subst null
    have value : ofDigits (zeros 1 ++ zeros 1) = 0 := ofDigits_zeros 2
    refine ⟨_, _, .pointed (zeros_ascii 1) (by simp [zeros]) (zeros_ascii 1) .absent, ?_⟩
    rw [value, ofDecimal, if_pos rfl, zero]
  · rw [if_neg null]
    have ascii := significant_ascii (shortestDecimal units).1 (shortestDecimal units).2
    have decimal := ofDecimal_shortestDecimal fits null
    -- Digits that are all zero would read back as zero, so one is kept.
    have nonzero : (shortestDecimal units).1 ≠ 0 := by
      intro noDigits
      rw [noDigits] at decimal
      simp [ofDecimal, zero] at decimal
      exact null decimal.symm
    have kept := significant_ne_nil (shortestDecimal units).2 nonzero
    have same := ofDecimal_significant false (shortestDecimal units).1 (shortestDecimal units).2
    rw [decimal] at same
    dsimp only
    split
    · obtain ⟨count, power, form, value⟩ := positional_lays ascii kept
      exact ⟨count, power, form, value.trans same⟩
    · obtain ⟨count, power, form, value⟩ := scientific_lays ascii kept
      exact ⟨count, power, form, value.trans same⟩

theorem ofNumeral_magnitudeChars {units : Nat} (fits : Representable units) :
    ofNumeral false (magnitudeChars units) = finite false units fits := by
  obtain ⟨digits, exponent, form, value⟩ := magnitudeChars_form fits
  rw [form.ofNumeral, value]

end CExpr.Double
