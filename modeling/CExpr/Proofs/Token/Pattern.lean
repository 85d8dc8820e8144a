import CExpr.Proofs.Token.Classes

/-!
The token classes as ordered alternatives of a backtracking matcher, which does not look for the
longest match: it takes the first alternative that matches, within it the longest run, and gives
back characters of a run only where what follows does not match. What it finds first is what the
lexer takes.
-/
namespace CExpr
open Text

/-- Patterns of single characters, greedy runs, sequences and ordered alternatives. -/
inductive Pattern
  | nothing
  | one (test : Char → Bool)
  | many (test : Char → Bool)
  | seq (first second : Pattern)
  | either (first second : Pattern)

namespace Pattern

def runs (test : Char → Bool) : List Char → List (List Char)
  | [] => [[]]
  | c :: rest => if test c then runs test rest ++ [c :: rest] else [c :: rest]

/-- What is left behind each way to match, in the order in which a matcher tries them. -/
def leftovers : Pattern → List Char → List (List Char)
  | nothing, text => [text]
  | one _, [] => []
  | one test, c :: rest => if test c then [rest] else []
  | many test, text => runs test text
  | seq first second, text => (first.leftovers text).flatMap second.leftovers
  | either first second, text => first.leftovers text ++ second.leftovers text

def left? (pattern : Pattern) (text : List Char) : Option (List Char) :=
  (pattern.leftovers text).head?

def char (c : Char) : Pattern := one (· = c)

def atLeastOne (test : Char → Bool) : Pattern := seq (one test) (many test)

def optional (pattern : Pattern) : Pattern := either pattern nothing

def word (text : List Char) : Pattern := text.foldr (fun c rest => seq (char c) rest) nothing

def anyOf (words : List (List Char)) (last : Pattern) : Pattern :=
  words.foldr (fun text rest => either (word text) rest) last

def digits : Pattern := atLeastOne isDigit

def exponent : Pattern :=
  seq (one fun c => c = 'e' || c = 'E') (seq (optional (one fun c => c = '+' || c = '-')) digits)

def double : Pattern :=
  either (seq digits (seq (char '.') (seq (many isDigit) (optional exponent))))
    (seq digits exponent)

def identifier : Pattern := seq (one startsIdentifier) (many continuesIdentifier)

def operator : Pattern := anyOf Token.doubleOperators (one Token.singleOperators.contains)

def alternatives : List (Option TokenClass × Pattern) :=
  [(none, atLeastOne isBlank), (some .double, double), (some .integer, digits),
    (some .identifier, identifier), (some .operator, operator), (some .leftParen, char '('),
    (some .rightParen, char ')')]

def firstMatch (text : List Char) : Option (Option TokenClass × List Char) :=
  alternatives.findSome? fun named => (named.2.left? text).map (named.1, ·)

section Equations

variable {test : Char → Bool} {first second next : Pattern} {c : Char} {text rest : List Char}

theorem drop_run (text : List Char) :
    text.drop (text.takeWhile test).length = text.dropWhile test := by
  induction text with
  | nil => rfl
  | cons c rest ih => by_cases passes : test c = true <;> simp [passes, ih]

theorem runs_head (text : List Char) : (runs test text).head? = some (text.dropWhile test) := by
  induction text with
  | nil => rfl
  | cons c rest ih => by_cases passes : test c = true <;> simp [runs, passes, ih]

theorem left?_one (c : Char) (rest : List Char) :
    (one test).left? (c :: rest) = if test c then some rest else none := by
  by_cases passes : test c = true <;> simp [left?, leftovers, passes]

theorem left?_either (text : List Char) :
    (either first second).left? text = (first.left? text).or (second.left? text) :=
  List.head?_append

theorem left?_optional (text : List Char) :
    (optional next).left? text = some ((next.left? text).getD text) := by
  rw [optional, left?_either]
  cases next.left? text <;> rfl

theorem leftovers_one_seq (passes : test c = true) (rest : List Char) :
    (seq (one test) next).leftovers (c :: rest) = next.leftovers rest := by
  simp [leftovers, passes]

theorem leftovers_one_seq_of_not (fails : ∀ c ∈ text.head?, test c = false) :
    (seq (one test) next).leftovers text = [] := by
  cases text with
  | nil => rfl
  | cons c rest => simp [leftovers, fails c rfl]

theorem leftovers_seq_assoc (text : List Char) :
    (seq (seq first second) next).leftovers text = (seq first (seq second next)).leftovers text :=
  List.flatMap_assoc

/-- No characters of a run are given back to what cannot begin with them. -/
theorem leftovers_many_seq (apart : ∀ c rest, test c = true → next.leftovers (c :: rest) = [])
    (text : List Char) :
    (seq (many test) next).leftovers text = next.leftovers (text.dropWhile test) := by
  show (runs test text).flatMap next.leftovers = _
  induction text with
  | nil => simp [runs]
  | cons c rest ih =>
      by_cases passes : test c = true
      · simp [runs, passes, ih, apart c rest passes]
      · simp [runs, passes]

theorem left?_many_optional (text : List Char) :
    (seq (many test) (optional next)).left? text =
      (optional next).left? (text.dropWhile test) := by
  obtain ⟨shorter, whole⟩ := List.head?_eq_some_iff.mp (@runs_head test text)
  show ((runs test text).flatMap (optional next).leftovers).head? = _
  rw [whole, List.flatMap_cons, List.head?_append]
  show ((optional next).left? (text.dropWhile test)).or _ = _
  rw [left?_optional]
  rfl

theorem left?_optional_one_seq (c : Char) (rest : List Char) :
    (seq (optional (one test)) next).left? (c :: rest) =
      if test c then (next.left? rest).or (next.left? (c :: rest)) else next.left? (c :: rest) := by
  by_cases passes : test c = true <;> simp [left?, leftovers, optional, passes]

theorem left?_atLeastOne (text : List Char) : (atLeastOne test).left? text =
    if (text.takeWhile test).length = 0 then none else some (text.dropWhile test) := by
  cases text with
  | nil => rfl
  | cons c rest =>
      by_cases passes : test c = true
      · rw [left?, atLeastOne, leftovers_one_seq passes]
        simp only [leftovers, runs_head]
        simp [passes]
      · simp [left?, atLeastOne, leftovers, passes]

theorem leftovers_digits_seq {first : Char} (digit : isDigit first = true)
    (apart : ∀ c rest, isDigit c = true → next.leftovers (c :: rest) = []) (rest : List Char) :
    (seq digits next).leftovers (first :: rest) = next.leftovers (rest.dropWhile isDigit) := by
  rw [digits, atLeastOne, leftovers_seq_assoc, leftovers_one_seq digit, leftovers_many_seq apart]

theorem leftovers_digits_seq_of_not {first : Char} (noDigit : isDigit first = false)
    (rest : List Char) : (seq digits next).leftovers (first :: rest) = [] := by
  rw [digits, atLeastOne, leftovers_seq_assoc]
  exact leftovers_one_seq_of_not (head_fails noDigit rest)

theorem left?_word (text input : List Char) : (word text).left? input =
    if text <+: input then some (input.drop text.length) else none := by
  induction text generalizing input with
  | nil => simp [word, left?, leftovers]
  | cons c more ih =>
      show (seq (char c) (word more)).left? input = _
      cases input with
      | nil => simp [left?, char, leftovers]
      | cons first rest =>
          by_cases same : first = c
          · subst same
            rw [left?, char, leftovers_one_seq (by simp), ← left?, ih]
            simp
          · rw [left?, char, leftovers_one_seq_of_not (head_fails (by simp [same]) rest)]
            simp [Ne.symm same]

theorem left?_anyOf_of_mem {words : List (List Char)} {last : Pattern} {count : Nat}
    (same : ∀ text ∈ words, text.length = count) {input : List Char}
    (found : ∃ text ∈ words, text <+: input) :
    (anyOf words last).left? input = some (input.drop count) := by
  induction words with
  | nil => simp at found
  | cons text words ih =>
      obtain ⟨length, same⟩ := List.forall_mem_cons.mp same
      show (either (word text) (anyOf words last)).left? input = _
      rw [left?_either, left?_word]
      by_cases front : text <+: input
      · rw [if_pos front, length, Option.some_or]
      · rw [if_neg front, Option.none_or]
        apply ih same
        simpa [front] using found

theorem left?_anyOf_of_not {words : List (List Char)} {last : Pattern} {input : List Char}
    (absent : ∀ text ∈ words, ¬ text <+: input) :
    (anyOf words last).left? input = last.left? input := by
  induction words with
  | nil => rfl
  | cons text words ih =>
      obtain ⟨front, absent⟩ := List.forall_mem_cons.mp absent
      show (either (word text) (anyOf words last)).left? input = _
      rw [left?_either, left?_word, if_neg front, Option.none_or, ih absent]

end Equations

/-! What each of the classes matches first. -/
section Classes

variable {first : Char} {text rest : List Char}

theorem left?_exponent (text : List Char) : exponent.left? text =
    if Token.exponentLength text = 0 then none
    else some (text.drop (Token.exponentLength text)) := by
  cases text with
  | nil => rfl
  | cons mark rest =>
      by_cases marks : (mark = 'e' || mark = 'E') = true
      · rw [left?, exponent, leftovers_one_seq marks, ← left?]
        cases rest with
        | nil => simp [left?, leftovers, optional, digits, atLeastOne, Token.exponentLength]
        | cons sign behind =>
            rw [left?_optional_one_seq, digits, left?_atLeastOne, left?_atLeastOne]
            by_cases signs : (sign = '+' || sign = '-') = true
            · -- A sign that is given back is no digit, so nothing more matches without it.
              have noDigit : isDigit sign = false := by
                rcases (by simpa using signs : sign = '+' ∨ sign = '-') with rfl | rfl <;> decide
              have whole := @drop_run isDigit behind
              rw [if_pos signs]
              simp only [Token.exponentLength, marks, signs, noDigit, if_true,
                List.takeWhile_cons, Bool.false_eq_true, if_false, List.length_nil, Option.or_none]
              cases count : (behind.takeWhile isDigit).length with
              | zero => rfl
              | succ more =>
                  rw [count] at whole
                  exact congrArg some whole.symm
            · have whole := @drop_run isDigit (sign :: behind)
              rw [if_neg signs]
              simp only [Token.exponentLength, marks, signs, if_true, Bool.false_eq_true, if_false]
              cases count : ((sign :: behind).takeWhile isDigit).length with
              | zero => rfl
              | succ more =>
                  rw [count] at whole
                  exact congrArg some whole.symm
      · rw [left?, exponent, leftovers_one_seq_of_not (head_fails (by simpa using marks) rest),
          Token.exponentLength.eq_def]
        simp [marks]

theorem exponent_apart (c : Char) (rest : List Char) (digit : isDigit c = true) :
    exponent.leftovers (c :: rest) = [] := by
  apply leftovers_one_seq_of_not
  apply head_fails
  simp only [Bool.or_eq_false_iff, decide_eq_false_iff_not]
  constructor <;> rintro rfl <;> exact absurd digit (by decide)

theorem point_apart {next : Pattern} (c : Char) (rest : List Char) (digit : isDigit c = true) :
    (seq (char '.') next).leftovers (c :: rest) = [] := by
  apply leftovers_one_seq_of_not
  apply head_fails
  simp only [decide_eq_false_iff_not]
  rintro rfl
  exact absurd digit (by decide)

theorem left?_double_of_not (noDigit : isDigit first = false) (rest : List Char) :
    double.left? (first :: rest) = none := by
  rw [double, left?_either, left?, left?, leftovers_digits_seq_of_not noDigit,
    leftovers_digits_seq_of_not noDigit]
  rfl

theorem left?_digits_of_not (noDigit : isDigit first = false) (rest : List Char) :
    digits.left? (first :: rest) = none := by
  rw [digits, left?_atLeastOne]
  simp [noDigit]

theorem left?_point {next : Pattern} (noPoint : ∀ behind, text ≠ '.' :: behind) :
    (seq (char '.') next).left? text = none := by
  rw [left?, char, leftovers_one_seq_of_not]
  · rfl
  · intro c front
    obtain ⟨behind, rfl⟩ := List.head?_eq_some_iff.mp front
    exact decide_eq_false fun same => noPoint behind (by rw [same])

theorem left?_fraction (behind : List Char) :
    (seq (char '.') (seq (many isDigit) (optional exponent))).left? ('.' :: behind) =
      some ((behind.dropWhile isDigit).drop
        (Token.exponentLength (behind.dropWhile isDigit))) := by
  rw [left?, char, leftovers_one_seq (by rfl), ← left?, left?_many_optional, left?_optional,
    left?_exponent]
  split
  · rename_i zero
    rw [zero]
    rfl
  · rfl

/-- A point or an exponent behind the digits makes a double; only what is none is an integer. -/
theorem left?_number (digit : isDigit first = true) (rest : List Char) :
    ((double.left? (first :: rest)).map (some TokenClass.double, ·)).or
      ((digits.left? (first :: rest)).map (some TokenClass.integer, ·)) =
    some (some (Token.numberRest rest).1, rest.drop (Token.numberRest rest).2) := by
  have pointed : (seq digits (seq (char '.') (seq (many isDigit) (optional exponent)))).left?
      (first :: rest) = (seq (char '.') (seq (many isDigit) (optional exponent))).left?
        (rest.dropWhile isDigit) := by
    rw [left?, leftovers_digits_seq digit point_apart, left?]
  have scaled : (seq digits exponent).left? (first :: rest) =
      exponent.left? (rest.dropWhile isDigit) := by
    rw [left?, leftovers_digits_seq digit exponent_apart, left?]
  rw [double, left?_either, pointed, scaled]
  fun_cases Token.numberRest rest with
  | case1 run behind point fraction =>
      have reach : run + 1 + fraction + Token.exponentLength (behind.drop fraction) =
          run + (fraction + Token.exponentLength (behind.drop fraction) + 1) := by omega
      rw [reach, ← List.drop_drop, point, List.drop_succ_cons, ← List.drop_drop]
      rw [drop_run] at point
      rw [point, left?_fraction, ← drop_run]
      rfl
  | case2 run noPoint noExponent =>
      rw [drop_run] at noPoint noExponent ⊢
      rw [left?_point noPoint, left?_exponent, if_pos noExponent, digits, left?_atLeastOne]
      simp [digit]
  | case3 run noPoint exponent =>
      -- The first alternative fails at the point that is missing; the second one needs none.
      rw [drop_run] at noPoint exponent
      rw [← List.drop_drop, drop_run, left?_point noPoint, left?_exponent, if_neg exponent]
      rfl

theorem operatorRest?_of_pair {pair : List Char} (listed : pair ∈ Token.doubleOperators)
    (front : pair <+: first :: rest) : Token.operatorRest? first rest = some 1 := by
  obtain ⟨tail, whole⟩ := front
  simp only [Token.doubleOperators, List.mem_cons, List.not_mem_nil, or_false] at listed
  rcases listed with rfl | rfl | rfl | rfl | rfl | rfl | rfl | rfl <;> cases whole <;> rfl

theorem operatorRest?_of_no_pair
    (absent : ∀ pair ∈ Token.doubleOperators, ¬ pair <+: first :: rest) :
    Token.operatorRest? first rest =
      if Token.singleOperators.contains first then some 0 else none := by
  unfold Token.operatorRest?
  split
  case h_9 => rfl
  all_goals
    rename_i second
    obtain ⟨tail, rfl⟩ := List.head?_eq_some_iff.mp second
    exact absurd ⟨tail, rfl⟩ (absent [_, _] (by decide))

theorem left?_operator (first : Char) (rest : List Char) :
    operator.left? (first :: rest) = (Token.operatorRest? first rest).map rest.drop := by
  have length : ∀ pair ∈ Token.doubleOperators, pair.length = 2 := by decide
  by_cases found : ∃ pair ∈ Token.doubleOperators, pair <+: first :: rest
  · rw [operator, left?_anyOf_of_mem length found]
    obtain ⟨pair, listed, front⟩ := found
    rw [operatorRest?_of_pair listed front]
    rfl
  · have absent : ∀ pair ∈ Token.doubleOperators, ¬ pair <+: first :: rest :=
      fun pair listed front => found ⟨pair, listed, front⟩
    rw [operator, left?_anyOf_of_not absent, operatorRest?_of_no_pair absent]
    rw [left?_one]
    by_cases single : Token.singleOperators.contains first = true
    · rw [if_pos single, if_pos single]
      rfl
    · rw [if_neg single, if_neg single]
      rfl

theorem left?_identifier (rest : List Char) : identifier.left? (first :: rest) =
    if startsIdentifier first then some (rest.dropWhile continuesIdentifier) else none := by
  by_cases starts : startsIdentifier first = true
  · rw [left?, identifier, leftovers_one_seq starts, if_pos starts]
    exact runs_head rest
  · rw [left?, identifier, leftovers_one_seq_of_not (head_fails (by simpa using starts) rest),
      if_neg starts]
    rfl

end Classes

theorem findSome?_cons_or {α β : Type} (f : α → Option β) (first : α) (rest : List α) :
    (first :: rest).findSome? f = (f first).or (rest.findSome? f) := by
  rw [List.findSome?_cons]
  cases f first <;> rfl

theorem firstMatch_eq (text : List Char) : firstMatch text =
    (((atLeastOne isBlank).left? text).map (none, ·)).or
      (((double.left? text).map (some TokenClass.double, ·)).or
        (((digits.left? text).map (some TokenClass.integer, ·)).or
          (((identifier.left? text).map (some TokenClass.identifier, ·)).or
            (((operator.left? text).map (some TokenClass.operator, ·)).or
              ((((char '(').left? text).map (some TokenClass.leftParen, ·)).or
                (((char ')').left? text).map (some TokenClass.rightParen, ·))))))) := by
  simp only [firstMatch, alternatives, findSome?_cons_or, List.findSome?_nil, Option.or_none]

theorem firstMatch_of_not_digit {first : Char} (noDigit : ¬ isDigit first = true)
    (rest : List Char) (others : Option (Option TokenClass × List Char)) :
    ((double.left? (first :: rest)).map (some TokenClass.double, ·)).or
      (((digits.left? (first :: rest)).map (some TokenClass.integer, ·)).or others) = others := by
  have noDigit : isDigit first = false := by simpa using noDigit
  rw [left?_double_of_not noDigit, left?_digits_of_not noDigit]
  rfl

theorem firstMatch_cons (first : Char) (rest : List Char) :
    firstMatch (first :: rest) =
      if isBlank first then some (none, rest.dropWhile isBlank)
      else (Token.munch? first rest).map fun taken => (some taken.1, rest.drop taken.2) := by
  have blanks : (atLeastOne isBlank).left? (first :: rest) =
      if isBlank first then some (rest.dropWhile isBlank) else none := by
    rw [left?_atLeastOne]
    by_cases blank : isBlank first = true <;> simp [blank]
  rw [firstMatch_eq, blanks]
  by_cases blank : isBlank first = true
  · rw [if_pos blank, if_pos blank]
    rfl
  · rw [if_neg blank, if_neg blank, left?_identifier, left?_operator, char, char, left?_one,
      left?_one, Option.map_none, Option.none_or]
    fun_cases Token.munch? first rest with
    | case1 digit =>
        rw [← Option.or_assoc, left?_number digit]
        rfl
    | case2 noDigit starts =>
        rw [firstMatch_of_not_digit noDigit, if_pos starts, ← drop_run]
        rfl
    | case3 noDigit noStart opening =>
        rw [firstMatch_of_not_digit noDigit, if_neg noStart, opening]
        rfl
    | case4 noDigit noStart noOpen closing =>
        rw [firstMatch_of_not_digit noDigit, if_neg noStart, closing]
        rfl
    | case5 noDigit noStart noOpen noClose =>
        rw [firstMatch_of_not_digit noDigit, if_neg noStart, if_neg (by simpa using noOpen),
          if_neg (by simpa using noClose)]
        cases Token.operatorRest? first rest <;> rfl

end Pattern
end CExpr
