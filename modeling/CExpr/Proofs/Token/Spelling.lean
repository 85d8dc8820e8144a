import CExpr.Operator
import CExpr.Token.Lexer
import CExpr.Proofs.Double.ReadBack
import CExpr.Proofs.Text.Digits

/-!
Texts that are cut into given pieces wherever they stand in front of a space, a closing parenthesis
or the end. Such texts compose: one may follow another behind a space, and stand inside parentheses
or behind a sign. A piece is a token that is not tied to a place.
-/
namespace CExpr
open Text

structure Piece where
  cls : TokenClass
  text : List Char
  deriving DecidableEq

def Token.piece (token : Token) : Piece := ⟨token.cls, token.text⟩

def Stops (rest : List Char) : Prop := ∀ c ∈ rest.head?, c = ' ' ∨ c = ')'

theorem stops_nil : Stops [] := fun _ member => nomatch member

theorem stops_space (rest : List Char) : Stops (' ' :: rest) := by simp [Stops]

theorem stops_closing (rest : List Char) : Stops (')' :: rest) := by simp [Stops]

theorem Stops.fails {rest : List Char} (stops : Stops rest) (p : Char → Bool)
    (space : p ' ' = false) (closing : p ')' = false) : ∀ c ∈ rest.head?, p c = false := by
  intro c first
  rcases stops c first with rfl | rfl
  · exact space
  · exact closing

theorem Stops.noDigit {rest : List Char} (stops : Stops rest) :
    ∀ c ∈ rest.head?, isDigit c = false :=
  stops.fails isDigit (by decide) (by decide)

theorem Stops.cases {rest : List Char} (stops : Stops rest) :
    rest = [] ∨ (∃ tail, rest = ' ' :: tail) ∨ ∃ tail, rest = ')' :: tail := by
  cases rest with
  | nil => exact .inl rfl
  | cons c tail =>
      rcases stops c rfl with rfl | rfl
      · exact .inr (.inl ⟨tail, rfl⟩)
      · exact .inr (.inr ⟨tail, rfl⟩)

def Opens (text : List Char) : Prop := ∃ first more, text = first :: more ∧ first ≠ '='

theorem Opens.free {text : List Char} (opens : Opens text) (rest : List Char) :
    (text ++ rest).head? ≠ some '=' := by
  obtain ⟨first, more, rfl, other⟩ := opens
  simpa using other

theorem Opens.append {text : List Char} (opens : Opens text) (rest : List Char) :
    Opens (text ++ rest) := by
  obtain ⟨first, more, rfl, other⟩ := opens
  exact ⟨first, more ++ rest, rfl, other⟩

theorem opens_of_digits {digits : List Char} (ascii : AsciiDigits digits) (nonempty : digits ≠ []) :
    Opens digits := by
  match digits, nonempty with
  | first :: more, _ =>
      refine ⟨first, more, rfl, ?_⟩
      rintro rfl
      exact absurd (ascii '=' List.mem_cons_self) (by decide)

theorem opens_of_decimal {text : List Char} {digits : Nat} {exponent : Int}
    (form : Double.DecimalText text digits exponent) : Opens text := by
  cases form with
  | pointed ascii nonempty _ _ => exact (opens_of_digits ascii nonempty).append _
  | bare ascii nonempty _ _ => exact (opens_of_digits ascii nonempty).append _

theorem opens_of_identifier {text : List Char} (shape : isIdentifier text = true) :
    Opens text := by
  match text, shape with
  | first :: more, shape =>
      refine ⟨first, more, rfl, ?_⟩
      rintro rfl
      simp only [isIdentifier, Bool.and_eq_true] at shape
      exact absurd shape.1 (by decide)

/-- The text is cut into the pieces, and whatever comes behind it is cut as if it stood alone. -/
def Spells (text : List Char) (pieces : List Piece) : Prop :=
  ∀ rest position, Stops rest → ∃ tokens : List Token, tokens.map Token.piece = pieces ∧
    tokensFrom position (text ++ rest) =
      (tokensFrom (position + text.length) rest).map (tokens ++ ·)

namespace Token

/-! How far each class of tokens reaches into what is written behind its first character. -/
section Reach

variable {rest : List Char}

theorem exponentLength_of_stops (stops : Stops rest) : exponentLength rest = 0 := by
  rcases stops.cases with rfl | ⟨tail, rfl⟩ | ⟨tail, rfl⟩ <;> simp [exponentLength]

theorem exponentLength_of_form {tail : List Char} {power : Int}
    (form : Double.ExponentText tail power) (stops : Stops rest) :
    exponentLength (tail ++ rest) = tail.length := by
  cases form with
  | absent => exact exponentLength_of_stops stops
  | plus ascii nonempty | minus ascii nonempty =>
      simp [exponentLength, takeWhile_run ascii.isDigit stops.noDigit]
      split
      · rename_i empty
        exact absurd (List.eq_nil_of_length_eq_zero empty) nonempty
      · rfl

theorem numberRest_integer {digits : List Char} (ascii : AsciiDigits digits)
    (stops : Stops rest) : numberRest (digits ++ rest) = (.integer, digits.length) := by
  have noExponent := exponentLength_of_stops stops
  rw [numberRest, takeWhile_run ascii.isDigit stops.noDigit, List.drop_left]
  rcases stops.cases with rfl | ⟨tail, rfl⟩ | ⟨tail, rfl⟩ <;> simp [noExponent]

theorem numberRest_pointed {digits fraction tail : List Char} {power : Int}
    (ascii : AsciiDigits digits) (fractionAscii : AsciiDigits fraction)
    (form : Double.ExponentText tail power) (stops : Stops rest) :
    numberRest (digits ++ '.' :: (fraction ++ tail) ++ rest) =
      (.double, (digits ++ '.' :: (fraction ++ tail)).length) := by
  -- The run of the fraction ends at the mark of the exponent, or at what stops the whole text.
  have ends : ∀ c ∈ (tail ++ rest).head?, isDigit c = false := by
    cases form with
    | absent => exact stops.noDigit
    | plus | minus => exact head_fails (by decide) _
  rw [numberRest, List.append_assoc, List.cons_append,
    takeWhile_run ascii.isDigit (head_fails (by decide) _), List.drop_left]
  simp only [List.append_assoc, takeWhile_run fractionAscii.isDigit ends, List.drop_left,
    exponentLength_of_form form stops, List.length_append, List.length_cons]
  congr 1
  omega

theorem numberRest_bare {digits tail : List Char} {power : Int} (ascii : AsciiDigits digits)
    (form : Double.ExponentText tail power) (nonempty : tail ≠ []) (stops : Stops rest) :
    numberRest (digits ++ tail ++ rest) = (.double, (digits ++ tail).length) := by
  have reach := exponentLength_of_form form stops
  cases form with
  | absent => exact absurd rfl nonempty
  | plus | minus =>
      rw [numberRest, List.append_assoc, List.cons_append,
        takeWhile_run ascii.isDigit (head_fails (by decide) _), List.drop_left]
      simp only [List.cons_append] at reach ⊢
      simp [reach]

theorem munch_digit {first : Char} {more : List Char} (digit : isDigit first = true) :
    munch? first more = some (numberRest more) := by
  rw [munch?, if_pos digit]

theorem munch_identifier {first : Char} {more : List Char} (starts : startsIdentifier first = true)
    (continues : more.all continuesIdentifier = true) (stops : Stops rest) :
    munch? first (more ++ rest) = some (.identifier, more.length) := by
  have ends := stops.fails continuesIdentifier (by decide) (by decide)
  rw [munch?, if_neg (by simp [isDigit_of_startsIdentifier starts]), if_pos starts,
    takeWhile_run (List.all_eq_true.mp continues) ends]

theorem munch_symbol (op : UnOp) (free : rest.head? ≠ some '=') :
    munch? op.symbol rest = some (.operator, 0) := by
  cases op with
  | plus | neg | bitNot => rfl
  | logicalNot =>
      cases rest with
      | nil => rfl
      | cons c tail =>
          -- Without the equals sign no operator of two characters begins with `!`.
          have other : c ≠ '=' := by simpa using free
          have single : operatorRest? '!' (c :: tail) = some 0 := by
            unfold operatorRest?
            split <;> simp_all [singleOperators]
          have reach : munch? '!' (c :: tail) =
            (operatorRest? '!' (c :: tail)).map (TokenClass.operator, ·) := rfl
          rw [UnOp.symbol, reach, single]
          rfl

theorem operator_reach (op : BinOp) : ∃ first more, op.token = first :: more ∧
    isBlank first = false ∧ ∀ rest, Stops rest →
      munch? first (more ++ rest) = some (.operator, more.length) := by
  cases op <;> refine ⟨_, _, rfl, by decide, fun rest stops => ?_⟩ <;>
    rcases stops.cases with rfl | ⟨tail, rfl⟩ | ⟨tail, rfl⟩ <;> rfl

end Reach

theorem isBlank_eq_false {c : Char} (ascii : c.toNat < 128) (printed : 32 < c.toNat) :
    isBlank c = false := by
  simp only [isBlank, blankRuns, List.any_cons, List.any_nil, Bool.or_false, Bool.or_eq_false_iff,
    Bool.and_eq_false_iff, decide_eq_false_iff_not]
  omega

theorem isBlank_of_isDigit {c : Char} (digit : c.isDigit = true) : isBlank c = false := by
  have bounds := digit_bounds digit
  exact isBlank_eq_false (by omega) (by omega)

theorem isBlank_of_startsIdentifier {c : Char} (starts : startsIdentifier c = true) :
    isBlank c = false := by
  have bounds := startsIdentifier_bounds starts
  exact isBlank_eq_false (by omega) (by omega)

end Token

namespace Spells
open Token

variable {text left right : List Char} {pieces before behind : List Piece} {first : Char}
  {more : List Char} {cls : TokenClass}

theorem cut_token (solid : isBlank first = false) (rest : List Char) (position : Nat)
    (reach : munch? first (more ++ rest) = some (cls, more.length)) :
    tokensFrom position (first :: (more ++ rest)) =
      (tokensFrom (position + 1 + more.length) rest).map (⟨cls, first :: more, position⟩ :: ·) := by
  rw [tokensFrom, if_neg (by simp [solid]), reach]
  simp only [List.take_left, List.drop_left]
  cases tokensFrom (position + 1 + more.length) rest <;> rfl

theorem cut_space (rest : List Char) (position : Nat) :
    tokensFrom position (' ' :: rest) = tokensFrom (position + 1) rest := by
  rw [tokensFrom, if_pos (by decide)]

theorem token (solid : isBlank first = false)
    (reach : ∀ rest, Stops rest → munch? first (more ++ rest) = some (cls, more.length)) :
    Spells (first :: more) [⟨cls, first :: more⟩] := by
  intro rest position stops
  refine ⟨[⟨cls, first :: more, position⟩], rfl, ?_⟩
  rw [List.cons_append, cut_token solid rest position (reach rest stops), List.length_cons,
    Nat.add_assoc, Nat.add_comm 1]
  rfl

theorem behind_token (solid : isBlank first = false)
    (reach : ∀ rest, munch? first (text ++ rest) = some (cls, 0)) (spells : Spells text pieces) :
    Spells (first :: text) (⟨cls, [first]⟩ :: pieces) := by
  intro rest position stops
  obtain ⟨tokens, same, cut⟩ := spells rest (position + 1) stops
  refine ⟨⟨cls, [first], position⟩ :: tokens, by rw [List.map_cons, same]; rfl, ?_⟩
  have taken := @cut_token first [] cls solid (text ++ rest) position (reach rest)
  rw [List.cons_append, ← List.nil_append (text ++ rest), taken, List.length_nil, Nat.add_zero, cut,
    List.length_cons, Nat.add_assoc, Nat.add_comm 1]
  cases tokensFrom (position + (text.length + 1)) rest <;> rfl

theorem space (spells : Spells text pieces) : Spells (' ' :: text) pieces := by
  intro rest position stops
  obtain ⟨tokens, same, cut⟩ := spells rest (position + 1) stops
  refine ⟨tokens, same, ?_⟩
  rw [List.cons_append, cut_space, cut, List.length_cons, Nat.add_assoc, Nat.add_comm 1]

/-- The text behind a stop is cut on its own. -/
theorem append (first : Spells left before) (second : Spells right behind) (stops : Stops right)
    (nonempty : right ≠ []) : Spells (left ++ right) (before ++ behind) := by
  intro rest position stop
  -- What stands before `rest` is not empty, so it hides `rest` from the first text.
  have stopsWhole : Stops (right ++ rest) := by
    cases right with
    | nil => exact absurd rfl nonempty
    | cons c tail => exact fun other head => stops other head
  obtain ⟨tokens, same, cut⟩ := first (right ++ rest) position stopsWhole
  obtain ⟨others, sameOthers, cutOthers⟩ := second rest (position + left.length) stop
  refine ⟨tokens ++ others, by rw [List.map_append, same, sameOthers], ?_⟩
  rw [List.append_assoc, cut, cutOthers, List.length_append, ← Nat.add_assoc]
  cases tokensFrom (position + left.length + right.length) rest <;> simp [Except.map]

theorem spaced (first : Spells left before) (second : Spells right behind) :
    Spells (left ++ ' ' :: right) (before ++ behind) :=
  first.append second.space (stops_space right) (List.cons_ne_nil _ _)

theorem closed (spells : Spells text pieces) :
    Spells (text ++ [')']) (pieces ++ [⟨.rightParen, [')']⟩]) := by
  have closing : Spells [')'] [⟨.rightParen, [')']⟩] := by
    apply token (by decide)
    intro rest _
    rfl
  exact spells.append closing (stops_closing []) (List.cons_ne_nil _ _)

theorem parens (spells : Spells text pieces) :
    Spells ('(' :: text ++ [')'])
      (⟨.leftParen, ['(']⟩ :: pieces ++ [⟨.rightParen, [')']⟩]) := by
  apply closed
  apply behind_token (by decide) _ spells
  intro rest
  rfl

theorem sign (op : UnOp) (opens : Opens text) (spells : Spells text pieces) :
    Spells (op.symbol :: text) (⟨.operator, op.token⟩ :: pieces) := by
  apply behind_token _ (fun rest => munch_symbol op (opens.free rest)) spells
  cases op <;> decide

theorem operator (op : BinOp) : Spells op.token [⟨.operator, op.token⟩] := by
  obtain ⟨first, more, same, solid, reach⟩ := operator_reach op
  rw [same]
  exact token solid reach

theorem number (digit : first.isDigit = true)
    (reach : ∀ rest, Stops rest → numberRest (more ++ rest) = (cls, more.length)) :
    Spells (first :: more) [⟨cls, first :: more⟩] := by
  apply token (isBlank_of_isDigit digit)
  intro rest stops
  rw [munch_digit (isDigit_of_isDigit digit), reach rest stops]

theorem digits (ascii : AsciiDigits text) (nonempty : text ≠ []) :
    Spells text [⟨.integer, text⟩] := by
  match text, nonempty with
  | first :: more, _ =>
      obtain ⟨digit, behind⟩ := List.forall_mem_cons.mp ascii
      exact number digit fun rest stops => numberRest_integer behind stops

theorem identifier (shape : isIdentifier text = true) : Spells text [⟨.identifier, text⟩] := by
  match text, shape with
  | first :: more, shape =>
      simp only [isIdentifier, Bool.and_eq_true] at shape
      apply token (isBlank_of_startsIdentifier shape.1)
      exact fun rest stops => munch_identifier shape.1 shape.2 stops

theorem decimal {digits : Nat} {exponent : Int} (form : Double.DecimalText text digits exponent) :
    Spells text [⟨.double, text⟩] := by
  cases form with
  | @pointed whole fraction tail power ascii nonempty fractionAscii tailForm =>
      match whole, nonempty with
      | first :: more, _ =>
          obtain ⟨digit, behind⟩ := List.forall_mem_cons.mp ascii
          exact number digit fun rest stops =>
            numberRest_pointed behind fractionAscii tailForm stops
  | @bare whole tail power ascii nonempty tailForm tailNonempty =>
      match whole, nonempty with
      | first :: more, _ =>
          obtain ⟨digit, behind⟩ := List.forall_mem_cons.mp ascii
          exact number digit fun rest stops => numberRest_bare behind tailForm tailNonempty stops

/-- A text that spells pieces is accepted by the tokenizer, which finds just these pieces. -/
theorem tokenize (spells : Spells text pieces) :
    ∃ tokens, tokenize text = .ok tokens ∧ tokens.map Token.piece = pieces := by
  obtain ⟨tokens, same, cut⟩ := spells [] 0 stops_nil
  refine ⟨tokens, ?_, same⟩
  rw [List.append_nil] at cut
  rw [CExpr.tokenize, cut, tokensFrom]
  simp [Except.map]

end Spells
end CExpr
