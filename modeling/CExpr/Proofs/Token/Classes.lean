import CExpr.Proofs.Token.Spelling

/-!
The token classes as sets of texts, and the lexer against them: what it takes at a place belongs to
the class that it names, nothing longer that begins there belongs to any class, and where it takes
nothing no text of a class begins. So the text of a class, standing alone, is taken as it is.
-/
namespace CExpr
open Text

namespace Token

inductive IsExponent : List Char → Prop
  | unsigned {mark : Char} {digits : List Char} : (mark = 'e' ∨ mark = 'E') → digits ≠ [] →
      (∀ c ∈ digits, isDigit c = true) → IsExponent (mark :: digits)
  | signed {mark sign : Char} {digits : List Char} : (mark = 'e' ∨ mark = 'E') →
      (sign = '+' ∨ sign = '-') → digits ≠ [] → (∀ c ∈ digits, isDigit c = true) →
      IsExponent (mark :: sign :: digits)

def doubleOperators : List (List Char) :=
  [['&', '&'], ['|', '|'], ['<', '<'], ['>', '>'], ['<', '='], ['>', '='], ['=', '='], ['!', '=']]

/-- The texts of each class. Digits are those of any script, letters those of ASCII. -/
inductive Belongs : TokenClass → List Char → Prop
  | pointed {whole fraction tail : List Char} : whole ≠ [] → (∀ c ∈ whole, isDigit c = true) →
      (∀ c ∈ fraction, isDigit c = true) → (tail = [] ∨ IsExponent tail) →
      Belongs .double (whole ++ '.' :: (fraction ++ tail))
  | scaled {whole tail : List Char} : whole ≠ [] → (∀ c ∈ whole, isDigit c = true) →
      IsExponent tail → Belongs .double (whole ++ tail)
  | integer {digits : List Char} : digits ≠ [] → (∀ c ∈ digits, isDigit c = true) →
      Belongs .integer digits
  | identifier {text : List Char} : isIdentifier text = true → Belongs .identifier text
  | pair {text : List Char} : text ∈ doubleOperators → Belongs .operator text
  | single {symbol : Char} : symbol ∈ singleOperators → Belongs .operator [symbol]
  | leftParen : Belongs .leftParen ['(']
  | rightParen : Belongs .rightParen [')']

section Runs

variable {p : Char → Bool}

theorem mem_takeWhile {text : List Char} : ∀ c ∈ text.takeWhile p, p c = true :=
  List.all_eq_true.mp List.all_takeWhile

theorem take_length_takeWhile (text : List Char) :
    text.take (text.takeWhile p).length = text.takeWhile p :=
  (List.prefix_iff_eq_take.mp (List.takeWhile_prefix p)).symm

theorem length_takeWhile_le (text : List Char) : (text.takeWhile p).length ≤ text.length :=
  (List.takeWhile_prefix p).length_le

theorem length_le_takeWhile {run : List Char} (inside : ∀ c ∈ run, p c = true)
    (rest : List Char) : run.length ≤ ((run ++ rest).takeWhile p).length := by
  rw [List.takeWhile_append_of_pos inside, List.length_append]
  exact Nat.le_add_right _ _

theorem digits_cons {first : Char} (digit : isDigit first = true) (rest : List Char) :
    ∀ c ∈ first :: rest.takeWhile isDigit, isDigit c = true :=
  List.forall_mem_cons.mpr ⟨digit, mem_takeWhile⟩

theorem isDigit_of_mark {mark : Char} (marks : mark = 'e' ∨ mark = 'E') : isDigit mark = false := by
  rcases marks with rfl | rfl <;> decide

end Runs

/-! What is taken lies in the text and belongs to its class. -/
section Taken

theorem exponentLength_le (text : List Char) : exponentLength text ≤ text.length := by
  fun_cases exponentLength text with
  | case1 | case2 | case3 | case7 => exact Nat.zero_le _
  | case4 mark marks sign digits signs nonzero =>
      exact Nat.succ_le_succ (Nat.succ_le_succ (length_takeWhile_le digits))
  | case5 mark marks sign digits signs zero | case6 mark marks sign digits signs nonzero =>
      split
      · exact Nat.zero_le _
      · exact Nat.succ_le_succ (length_takeWhile_le (sign :: digits))

theorem isExponent_taken (text : List Char) (nonzero : exponentLength text ≠ 0) :
    IsExponent (text.take (exponentLength text)) := by
  revert nonzero
  fun_cases exponentLength text with
  | case1 | case2 | case3 | case7 => exact fun nonzero => absurd rfl nonzero
  | case4 mark marks sign digits signs nonzero =>
      intro _
      simp only [List.take_succ_cons, take_length_takeWhile]
      refine .signed (by simpa using marks) (by simpa using signs) ?_ mem_takeWhile
      exact fun empty => nonzero (by rw [empty]; rfl)
  | case5 mark marks sign digits signs zero =>
      split
      · exact fun nonzero => absurd rfl nonzero
      · contradiction
  | case6 mark marks sign digits signs nonzero =>
      split
      · contradiction
      · intro _
        simp only [List.take_succ_cons, take_length_takeWhile]
        refine .unsigned (by simpa using marks) ?_ mem_takeWhile
        exact fun empty => nonzero (by rw [empty]; rfl)

theorem numberRest_le (rest : List Char) : (numberRest rest).2 ≤ rest.length := by
  fun_cases numberRest rest with
  | case1 digits behind point fraction =>
      have within := exponentLength_le (behind.drop fraction)
      have run := length_takeWhile_le (p := isDigit) behind
      have whole := congrArg List.length point
      simp only [List.length_drop, List.length_cons] at within whole
      show digits + 1 + fraction + _ ≤ _
      omega
  | case2 digits noPoint noExponent => exact length_takeWhile_le rest
  | case3 digits noPoint exponent =>
      have within := exponentLength_le (rest.drop digits)
      have run := length_takeWhile_le (p := isDigit) rest
      rw [List.length_drop] at within
      show digits + _ ≤ _
      omega

theorem number_belongs {first : Char} {rest : List Char} (digit : isDigit first = true) :
    Belongs (numberRest rest).1 (first :: rest.take (numberRest rest).2) := by
  fun_cases numberRest rest with
  | case1 digits behind point fraction =>
      have tail : (behind.drop fraction).take (exponentLength (behind.drop fraction)) = [] ∨
          IsExponent ((behind.drop fraction).take (exponentLength (behind.drop fraction))) := by
        by_cases noExponent : exponentLength (behind.drop fraction) = 0
        · rw [noExponent]
          exact .inl (List.take_zero)
        · exact .inr (isExponent_taken _ noExponent)
      have inside : ∀ c ∈ behind.takeWhile isDigit, isDigit c = true := mem_takeWhile
      have whole := Belongs.pointed (List.cons_ne_nil _ _) (digits_cons digit rest) inside tail
      have reach : digits + 1 + fraction + exponentLength (behind.drop fraction) =
          digits + (fraction + exponentLength (behind.drop fraction) + 1) := by omega
      rw [reach, List.take_add, point, List.take_succ_cons, List.take_add,
        take_length_takeWhile, take_length_takeWhile]
      exact whole
  | case2 digits noPoint noExponent =>
      rw [take_length_takeWhile]
      exact .integer (List.cons_ne_nil _ _) (digits_cons digit rest)
  | case3 digits noPoint exponent =>
      have whole := Belongs.scaled (List.cons_ne_nil _ _) (digits_cons digit rest)
        (isExponent_taken _ exponent)
      rw [List.take_add, take_length_takeWhile]
      exact whole

theorem operator_belongs {first : Char} {rest : List Char} {extra : Nat}
    (found : operatorRest? first rest = some extra) :
    extra ≤ rest.length ∧ Belongs .operator (first :: rest.take extra) := by
  unfold operatorRest? at found
  split at found
  case h_9 =>
      obtain ⟨single, same⟩ := Option.ite_none_right_eq_some.mp found
      cases same
      exact ⟨Nat.zero_le _, .single (List.contains_iff_mem.mp single)⟩
  all_goals
    rename_i second
    obtain ⟨tail, rfl⟩ := List.head?_eq_some_iff.mp second
    cases found
    refine ⟨Nat.succ_le_succ (Nat.zero_le _), .pair ?_⟩
    rw [List.take_succ_cons, List.take_zero]
    decide

variable {first : Char} {rest : List Char} {cls : TokenClass} {extra : Nat}

theorem munch_belongs (found : munch? first rest = some (cls, extra)) :
    extra ≤ rest.length ∧ Belongs cls (first :: rest.take extra) := by
  revert found
  fun_cases munch? first rest with
  | case1 digit =>
      intro found
      have number : Belongs (numberRest rest).1 (first :: rest.take (numberRest rest).2) :=
        number_belongs digit
      have within := numberRest_le rest
      rw [Option.some.inj found] at number within
      exact ⟨within, number⟩
  | case2 noDigit starts =>
      rintro ⟨⟩
      refine ⟨length_takeWhile_le rest, .identifier ?_⟩
      rw [take_length_takeWhile, isIdentifier, starts, Bool.true_and]
      exact List.all_takeWhile
  | case3 noDigit noStart opening =>
      rintro ⟨⟩
      rw [opening]
      exact ⟨Nat.zero_le _, .leftParen⟩
  | case4 noDigit noStart noOpen closing =>
      rintro ⟨⟩
      rw [closing]
      exact ⟨Nat.zero_le _, .rightParen⟩
  | case5 noDigit noStart noOpen noClose =>
      intro found
      obtain ⟨length, operator, same⟩ := Option.map_eq_some_iff.mp found
      cases same
      exact operator_belongs operator

end Taken

/-! What belongs to a class is taken, or something longer is. -/
section Longest

theorem exponentLength_unsigned {mark first : Char} (marks : mark = 'e' ∨ mark = 'E')
    (digit : isDigit first = true) (rest : List Char) :
    exponentLength (mark :: first :: rest) = ((first :: rest).takeWhile isDigit).length + 1 := by
  have noSign : ¬(first = '+' ∨ first = '-') := by
    rintro (rfl | rfl) <;> exact absurd digit (by decide)
  simp [exponentLength, marks, noSign, digit]

theorem exponentLength_signed {mark sign first : Char} (marks : mark = 'e' ∨ mark = 'E')
    (signs : sign = '+' ∨ sign = '-') (digit : isDigit first = true) (rest : List Char) :
    exponentLength (mark :: sign :: first :: rest) =
      ((first :: rest).takeWhile isDigit).length + 2 := by
  simp [exponentLength, marks, signs, digit]

theorem length_le_exponentLength {tail : List Char} (exponent : IsExponent tail)
    (rest : List Char) : tail.length ≤ exponentLength (tail ++ rest) := by
  cases exponent with
  | unsigned marks nonempty inside =>
      obtain ⟨first, more, rfl⟩ := List.exists_cons_of_ne_nil nonempty
      have digit := inside first List.mem_cons_self
      have reach := length_le_takeWhile inside rest
      rw [List.cons_append, List.cons_append, exponentLength_unsigned marks digit]
      exact Nat.succ_le_succ reach
  | signed marks signs nonempty inside =>
      obtain ⟨first, more, rfl⟩ := List.exists_cons_of_ne_nil nonempty
      have digit := inside first List.mem_cons_self
      have reach := length_le_takeWhile inside rest
      rw [List.cons_append, List.cons_append, List.cons_append,
        exponentLength_signed marks signs digit]
      exact Nat.succ_le_succ (Nat.succ_le_succ reach)

theorem takeWhile_le_numberRest (rest : List Char) :
    (rest.takeWhile isDigit).length ≤ (numberRest rest).2 := by
  fun_cases numberRest rest with
  | case1 digits behind point fraction =>
    show digits ≤ digits + 1 + fraction + _
    omega
  | case2 digits noPoint noExponent => exact Nat.le_refl _
  | case3 digits noPoint exponent => exact Nat.le_add_right _ _

theorem exponent_head {tail : List Char} (exponent : IsExponent tail) :
    ∃ mark more, tail = mark :: more ∧ (mark = 'e' ∨ mark = 'E') := by
  cases exponent with
  | unsigned marks _ _ => exact ⟨_, _, rfl, marks⟩
  | signed marks _ _ _ => exact ⟨_, _, rfl, marks⟩

theorem length_le_pointed {whole fraction tail : List Char} (inside : ∀ c ∈ whole, isDigit c = true)
    (behind : ∀ c ∈ fraction, isDigit c = true) (form : tail = [] ∨ IsExponent tail)
    (rest : List Char) : (whole ++ '.' :: (fraction ++ tail)).length ≤
      (numberRest (whole ++ '.' :: (fraction ++ tail) ++ rest)).2 := by
  rw [numberRest, List.append_assoc, List.cons_append,
    takeWhile_run inside (head_fails (by decide) _), List.drop_left]
  simp only [List.append_assoc, List.length_append, List.length_cons]
  rcases form with rfl | exponent
  · have reach := length_le_takeWhile behind rest
    simp only [List.nil_append, List.length_nil]
    omega
  · obtain ⟨mark, more, same, marks⟩ := exponent_head exponent
    have ends : ∀ c ∈ (tail ++ rest).head?, isDigit c = false := by
      rw [same]
      exact head_fails (isDigit_of_mark marks) _
    have reach := length_le_exponentLength exponent rest
    rw [takeWhile_run behind ends, List.drop_left]
    omega

theorem length_le_scaled {whole tail : List Char} (inside : ∀ c ∈ whole, isDigit c = true)
    (exponent : IsExponent tail) (rest : List Char) :
    (whole ++ tail).length ≤ (numberRest (whole ++ tail ++ rest)).2 := by
  have reach := length_le_exponentLength exponent rest
  obtain ⟨mark, more, rfl, marks⟩ := exponent_head exponent
  rw [numberRest, List.append_assoc, List.cons_append,
    takeWhile_run inside (head_fails (isDigit_of_mark marks) _), List.drop_left]
  have noPoint : mark ≠ '.' := by rintro rfl; simp at marks
  simp only [List.length_append, List.length_cons] at reach ⊢
  split
  · rename_i behind same
    exact absurd (List.cons.inj same).1 noPoint
  · split
    · rename_i zero
      rw [List.cons_append, zero] at reach
      omega
    · show _ ≤ whole.length + _
      exact Nat.add_le_add_left reach _

theorem singleOperators_first : ∀ symbol ∈ singleOperators, isDigit symbol = false ∧
    startsIdentifier symbol = false ∧ symbol ≠ '(' ∧ symbol ≠ ')' := by
  simp only [singleOperators, List.forall_mem_cons, List.not_mem_nil, false_imp_iff, implies_true]
  decide

theorem exists_munch_single {symbol : Char} (listed : symbol ∈ singleOperators)
    (rest : List Char) : ∃ extra, munch? symbol rest = some (.operator, extra) := by
  obtain ⟨noDigit, noStart, noOpen, noClose⟩ := singleOperators_first symbol listed
  have taken : ∃ extra, operatorRest? symbol rest = some extra := by
    unfold operatorRest?
    split
    case h_9 => exact ⟨0, if_pos (List.contains_iff_mem.mpr listed)⟩
    all_goals exact ⟨1, rfl⟩
  obtain ⟨extra, found⟩ := taken
  refine ⟨extra, ?_⟩
  rw [munch?, if_neg (by simp [noDigit]), if_neg (by simp [noStart]), if_neg noOpen,
    if_neg noClose, found]
  rfl

theorem exists_munch {first : Char} {more : List Char} {cls : TokenClass}
    (member : Belongs cls (first :: more)) (rest : List Char) :
    ∃ other extra, munch? first (more ++ rest) = some (other, extra) ∧ more.length ≤ extra := by
  generalize whole : first :: more = text at member
  cases member with
  | pointed nonempty inside behind form =>
      obtain ⟨c, run, rfl⟩ := List.exists_cons_of_ne_nil nonempty
      cases whole
      obtain ⟨digit, inside⟩ := List.forall_mem_cons.mp inside
      exact ⟨_, _, munch_digit digit, length_le_pointed inside behind form rest⟩
  | scaled nonempty inside exponent =>
      obtain ⟨c, run, rfl⟩ := List.exists_cons_of_ne_nil nonempty
      cases whole
      obtain ⟨digit, inside⟩ := List.forall_mem_cons.mp inside
      exact ⟨_, _, munch_digit digit, length_le_scaled inside exponent rest⟩
  | integer nonempty inside =>
      cases whole
      obtain ⟨digit, inside⟩ := List.forall_mem_cons.mp inside
      exact ⟨_, _, munch_digit digit,
        Nat.le_trans (length_le_takeWhile inside rest) (takeWhile_le_numberRest _)⟩
  | identifier shape =>
      cases whole
      obtain ⟨starts, continues⟩ := Bool.and_eq_true_iff.mp shape
      refine ⟨.identifier, _, ?_, length_le_takeWhile (List.all_eq_true.mp continues) rest⟩
      rw [munch?, if_neg (by simp [isDigit_of_startsIdentifier starts]), if_pos starts]
  | pair listed =>
      cases whole
      simp only [doubleOperators, List.mem_cons, List.cons.injEq, List.not_mem_nil, or_false]
        at listed
      rcases listed with ⟨rfl, rfl⟩ | ⟨rfl, rfl⟩ | ⟨rfl, rfl⟩ | ⟨rfl, rfl⟩ | ⟨rfl, rfl⟩ |
        ⟨rfl, rfl⟩ | ⟨rfl, rfl⟩ | ⟨rfl, rfl⟩ <;> exact ⟨.operator, 1, rfl, Nat.le_refl 1⟩
  | single listed =>
      cases whole
      obtain ⟨extra, found⟩ := exists_munch_single listed rest
      exact ⟨.operator, extra, found, Nat.zero_le _⟩
  | leftParen | rightParen =>
      cases whole
      exact ⟨_, 0, rfl, Nat.le_refl 0⟩

theorem Belongs.ne_nil {cls : TokenClass} {text : List Char} (member : Belongs cls text) :
    text ≠ [] := by
  cases member with
  | pointed nonempty _ _ _ | scaled nonempty _ _ =>
      exact fun empty => nonempty (List.append_eq_nil_iff.mp empty).1
  | integer nonempty _ => exact nonempty
  | identifier shape =>
      rintro rfl
      cases shape
  | pair listed =>
      rintro rfl
      exact absurd listed (by decide)
  | single _ | leftParen | rightParen => exact List.cons_ne_nil _ _

variable {first : Char} {rest piece : List Char} {cls : TokenClass}

/-- Whatever begins at a place and belongs to a class, something as long is taken there. -/
theorem exists_munch_of_prefix (member : Belongs cls piece) (front : piece <+: first :: rest) :
    ∃ other extra, munch? first rest = some (other, extra) ∧ piece.length ≤ extra + 1 := by
  obtain ⟨c, more, rfl⟩ := List.exists_cons_of_ne_nil member.ne_nil
  obtain ⟨rfl, behind, rfl⟩ := List.cons_prefix_cons.mp front
  obtain ⟨other, extra, found, reach⟩ := exists_munch member behind
  exact ⟨other, extra, found, Nat.succ_le_succ reach⟩

theorem munch_longest {other : TokenClass} {extra : Nat} (member : Belongs cls piece)
    (front : piece <+: first :: rest) (found : munch? first rest = some (other, extra)) :
    piece.length ≤ extra + 1 := by
  obtain ⟨_, _, again, reach⟩ := exists_munch_of_prefix member front
  cases found.symm.trans again
  exact reach

/-- The mark of an exponent that has no digits is not part of the number. -/
example : Token.munch? '1' "e+x".toList = some (.integer, 0) := by decide

theorem not_prefix_of_munch_eq_none (member : Belongs cls piece)
    (stuck : munch? first rest = none) : ¬ piece <+: first :: rest := by
  intro front
  obtain ⟨_, _, found, _⟩ := exists_munch_of_prefix member front
  cases stuck.symm.trans found

end Longest

/-! A text of a class stands alone: with a space or a closing parenthesis behind it, it is taken as
a whole and nothing more is. -/
section Alone

theorem digitZeros_apart : ∀ start ∈ digitZeros, ∀ run ∈ blankRuns,
    run.2 < start ∨ start + 10 ≤ run.1 := by
  decide +kernel

theorem isBlank_of_digit {c : Char} (digit : isDigit c = true) : isBlank c = false := by
  rw [isDigit, digitValue?, Option.isSome_map, List.find?_isSome] at digit
  obtain ⟨start, script, within⟩ := digit
  simp only [Bool.and_eq_true, decide_eq_true_eq] at within
  apply List.any_eq_false.mpr
  intro run listed
  have apart := digitZeros_apart start script run listed
  simp only [Bool.and_eq_true, decide_eq_true_eq]
  omega

def classOf : List Char → TokenClass
  | [] => .operator
  | first :: more =>
    if isDigit first then if more.all isDigit then .integer else .double
    else if startsIdentifier first then .identifier
    else if first = '(' then .leftParen
    else if first = ')' then .rightParen
    else .operator

variable {cls : TokenClass} {text : List Char} {first : Char} {more rest : List Char}

theorem classOf_of_belongs (member : Belongs cls text) : classOf text = cls := by
  cases member with
  | pointed nonempty inside =>
      obtain ⟨c, run, rfl⟩ := List.exists_cons_of_ne_nil nonempty
      have digit := inside c List.mem_cons_self
      have point : isDigit '.' = false := by decide
      simp [classOf, digit, point]
  | scaled nonempty inside exponent =>
      obtain ⟨mark, behind, rfl, marks⟩ := exponent_head exponent
      obtain ⟨c, run, rfl⟩ := List.exists_cons_of_ne_nil nonempty
      have digit := inside c List.mem_cons_self
      simp [classOf, digit, isDigit_of_mark marks]
  | integer nonempty inside =>
      obtain ⟨c, run, rfl⟩ := List.exists_cons_of_ne_nil nonempty
      obtain ⟨digit, inside⟩ := List.forall_mem_cons.mp inside
      rw [classOf, if_pos digit, if_pos (List.all_eq_true.mpr inside)]
  | identifier shape =>
      cases text with
      | nil => cases shape
      | cons c run =>
          have starts := (Bool.and_eq_true_iff.mp shape).1
          simp [classOf, isDigit_of_startsIdentifier starts, starts]
  | pair listed =>
      revert listed text
      decide
  | @single symbol listed =>
      obtain ⟨noDigit, noStart, noOpen, noClose⟩ := singleOperators_first symbol listed
      simp [classOf, noDigit, noStart, noOpen, noClose]
  | leftParen | rightParen => decide

theorem Belongs.solid (member : Belongs cls (first :: more)) : isBlank first = false := by
  generalize whole : first :: more = text at member
  cases member with
  | pointed nonempty inside _ _ | scaled nonempty inside _ =>
      obtain ⟨c, run, rfl⟩ := List.exists_cons_of_ne_nil nonempty
      cases whole
      exact isBlank_of_digit (inside _ List.mem_cons_self)
  | integer nonempty inside =>
      cases whole
      exact isBlank_of_digit (inside _ List.mem_cons_self)
  | identifier shape =>
      cases whole
      exact isBlank_of_startsIdentifier (Bool.and_eq_true_iff.mp shape).1
  | pair listed =>
      cases whole
      have solid : ∀ text ∈ doubleOperators, text.head?.any isBlank = false := by decide
      exact solid _ listed
  | single listed =>
      cases whole
      have solid : singleOperators.any isBlank = false := by decide
      exact Bool.eq_false_iff.mpr (List.any_eq_false.mp solid first listed)
  | leftParen | rightParen =>
      cases whole
      decide

def IsStop (c : Char) : Prop := c = ' ' ∨ c = ')'

theorem not_isStop_of {p : Char → Bool} (space : p ' ' = false) (closing : p ')' = false)
    {c : Char} (passes : p c = true) : ¬ IsStop c := by
  rintro (rfl | rfl)
  · cases space.symm.trans passes
  · cases closing.symm.trans passes

theorem not_isStop_of_digits {digits : List Char} (inside : ∀ c ∈ digits, isDigit c = true) :
    ∀ c ∈ digits, ¬ IsStop c :=
  fun c member => not_isStop_of (by decide) (by decide) (inside c member)

theorem not_isStop_of_exponent {tail : List Char} (exponent : IsExponent tail) :
    ∀ c ∈ tail, ¬ IsStop c := by
  cases exponent with
  | unsigned marks _ inside =>
      refine List.forall_mem_cons.mpr ⟨?_, not_isStop_of_digits inside⟩
      rcases marks with rfl | rfl <;> simp [IsStop]
  | signed marks signs _ inside =>
      refine List.forall_mem_cons.mpr
        ⟨?_, List.forall_mem_cons.mpr ⟨?_, not_isStop_of_digits inside⟩⟩
      · rcases marks with rfl | rfl <;> simp [IsStop]
      · rcases signs with rfl | rfl <;> simp [IsStop]

/-- Behind its first character no text of a class has a stop. -/
theorem Belongs.inner (member : Belongs cls text) : ∀ c ∈ text.tail, ¬ IsStop c := by
  intro c inside
  have listed := List.mem_of_mem_tail inside
  cases member with
  | pointed _ whole fraction form =>
      rcases List.mem_append.mp listed with front | listed
      · exact not_isStop_of_digits whole c front
      · rcases List.mem_cons.mp listed with rfl | listed
        · simp [IsStop]
        · rcases List.mem_append.mp listed with front | back
          · exact not_isStop_of_digits fraction c front
          · rcases form with rfl | exponent
            · cases back
            · exact not_isStop_of_exponent exponent c back
  | scaled _ whole exponent =>
      rcases List.mem_append.mp listed with front | back
      · exact not_isStop_of_digits whole c front
      · exact not_isStop_of_exponent exponent c back
  | integer _ digits => exact not_isStop_of_digits digits c listed
  | identifier shape =>
      cases text with
      | nil => cases shape
      | cons first run =>
          have continues := List.all_eq_true.mp (Bool.and_eq_true_iff.mp shape).2 c inside
          exact not_isStop_of (by decide) (by decide) continues
  | pair pair =>
      have apart : ∀ text ∈ doubleOperators, ' ' ∉ text ∧ ')' ∉ text := by decide
      rintro (rfl | rfl)
      · exact (apart text pair).1 listed
      · exact (apart text pair).2 listed
  | single _ | leftParen | rightParen => cases inside

theorem munch_alone (member : Belongs cls (first :: more)) (stops : Stops rest) :
    munch? first (more ++ rest) = some (cls, more.length) := by
  obtain ⟨other, extra, found, reach⟩ := exists_munch member rest
  obtain ⟨within, taken⟩ := munch_belongs found
  have same : extra = more.length := by
    refine Nat.le_antisymm (Nat.le_of_not_lt fun longer => ?_) reach
    -- Something longer would have the stop inside it.
    obtain ⟨stop, behind, rfl⟩ : ∃ stop behind, rest = stop :: behind := by
      cases rest with
      | nil => rw [List.append_nil] at within; omega
      | cons stop behind => exact ⟨stop, behind, rfl⟩
    apply taken.inner stop _ (stops stop rfl)
    obtain ⟨beyond, rfl⟩ : ∃ beyond, extra = more.length + (beyond + 1) :=
      ⟨extra - more.length - 1, by omega⟩
    rw [List.tail_cons, List.take_length_add_append, List.take_succ_cons]
    exact List.mem_append_right _ List.mem_cons_self
  subst same
  rw [List.take_left] at taken
  rw [found, ← classOf_of_belongs taken, classOf_of_belongs member]

end Alone
end Token

theorem Spells.ofClass {cls : TokenClass} {text : List Char} (member : Token.Belongs cls text) :
    Spells text [⟨cls, text⟩] := by
  obtain ⟨first, more, rfl⟩ := List.exists_cons_of_ne_nil member.ne_nil
  exact Spells.token member.solid fun rest stops => Token.munch_alone member stops

end CExpr
