import CExpr.Proofs.Expr.Pieces
import CExpr.Proofs.Token.MaximalMunch

/-!
Printed expressions as C sees them. However a tree is nested, C cuts its text at the places where the
tokenizer does: no two tokens that come to stand next to each other begin a longer one, and a sign is
set off from an equal one. So nothing in the text is an increment, a decrement, a compound assignment
or a comment.
-/
namespace CExpr
open Text

/-- C cuts a text into the pieces, wherever the text stands. -/
def Divides (text : List Char) (pieces : List (List Char)) : Prop :=
  ∀ position, ∃ placed, Split position text placed ∧ placed.map Prod.snd = pieces

namespace Divides

variable {piece text rest : List Char} {pieces : List (List Char)}

theorem nil : Divides [] [] := fun _ => ⟨[], .finish, rfl⟩

theorem space (behind : Divides rest pieces) : Divides (' ' :: rest) pieces := by
  intro position
  obtain ⟨placed, split, same⟩ := behind (position + 1)
  exact ⟨placed, .blank (by decide) split, same⟩

theorem token (long : Longest piece (piece ++ rest)) (behind : Divides rest pieces) :
    Divides (piece ++ rest) (piece :: pieces) := by
  intro position
  obtain ⟨placed, split, same⟩ := behind (position + piece.length)
  exact ⟨_, .token long rfl split, by rw [List.map_cons, same]⟩

end Divides

/-! What operands begin with. -/
section Begins

def beginsOperand (c : Char) : Bool :=
  continuesIdentifier c || ['(', '+', '-', '!', '~'].contains c

/-- Of all that an operand can begin with, only `+` and `-` go together with a sign before them, and
only with the same one. -/
theorem UnOp.apart {op : UnOp} {c : Char} (begins : beginsOperand c = true)
    (other : ¬ ((op = .plus ∨ op = .neg) ∧ c = op.symbol)) : c ∉ continuations op.symbol := by
  have known : (continuations op.symbol).all (fun c =>
      !beginsOperand c || ((op = .plus || op = .neg) && c = op.symbol)) = true := by
    cases op <;> decide
  intro goesOn
  have either := List.all_eq_true.mp known c goesOn
  simp only [begins, Bool.not_true, Bool.false_or, Bool.and_eq_true, Bool.or_eq_true,
    decide_eq_true_eq] at either
  exact other either

structure IsWord (text : List Char) : Prop where
  token : CToken text
  begins : ∃ first more, text = first :: more ∧ continuesIdentifier first = true

theorem isWord_identifier {text : List Char} (shape : isIdentifier text = true) : IsWord text := by
  refine ⟨.identifier shape, ?_⟩
  cases text with
  | nil => cases shape
  | cons first more =>
      exact ⟨first, more, rfl, continuesIdentifier_of_mem shape first List.mem_cons_self⟩

theorem IsCNumber.run {number digits : List Char} (begun : IsCNumber number)
    (ascii : AsciiDigits digits) : IsCNumber (number ++ digits) := by
  induction digits generalizing number with
  | nil => rwa [List.append_nil]
  | cons c rest ih =>
      obtain ⟨digit, ascii⟩ := List.forall_mem_cons.mp ascii
      have longer := begun.character (continuesIdentifier_of_isDigit digit)
      have whole := ih longer ascii
      rwa [List.append_assoc] at whole

theorem IsCNumber.digits {digits : List Char} (ascii : AsciiDigits digits) (nonempty : digits ≠ []) :
    IsCNumber digits := by
  obtain ⟨first, rest, rfl⟩ := List.exists_cons_of_ne_nil nonempty
  obtain ⟨digit, ascii⟩ := List.forall_mem_cons.mp ascii
  exact (IsCNumber.digit digit).run ascii

theorem IsCNumber.tail {number tail : List Char} {power : Int} (begun : IsCNumber number)
    (form : Double.ExponentText tail power) : IsCNumber (number ++ tail) := by
  have signed {sign : Char} {digits : List Char} (signs : sign = '+' ∨ sign = '-')
      (ascii : AsciiDigits digits) : IsCNumber (number ++ 'e' :: sign :: digits) := by
    have marked : IsCNumber (number ++ ['e', sign]) := begun.exponent (by decide) signs
    have whole := marked.run ascii
    rwa [List.append_assoc] at whole
  cases form with
  | absent => rwa [List.append_nil]
  | plus ascii _ | minus ascii _ => exact signed (by decide) ascii

theorem begins_digits {digits : List Char} (ascii : AsciiDigits digits) (nonempty : digits ≠ [])
    (rest : List Char) :
    ∃ first more, digits ++ rest = first :: more ∧ continuesIdentifier first = true := by
  obtain ⟨first, more, rfl⟩ := List.exists_cons_of_ne_nil nonempty
  exact ⟨first, more ++ rest, rfl, continuesIdentifier_of_isDigit (ascii first List.mem_cons_self)⟩

theorem isWord_digits {digits : List Char} (ascii : AsciiDigits digits) (nonempty : digits ≠ []) :
    IsWord digits := by
  have begins := begins_digits ascii nonempty []
  rw [List.append_nil] at begins
  exact ⟨.number (.digits ascii nonempty), begins⟩

theorem isWord_decimal {text : List Char} {digits : Nat} {exponent : Int}
    (form : Double.DecimalText text digits exponent) : IsWord text := by
  cases form with
  | @pointed whole fraction tail _ ascii nonempty fractionAscii tailForm =>
      have number := ((IsCNumber.digits ascii nonempty).fraction.run fractionAscii).tail tailForm
      rw [List.append_assoc, List.append_assoc] at number
      exact ⟨.number number, begins_digits ascii nonempty _⟩
  | bare ascii nonempty tailForm _ =>
      exact ⟨.number ((IsCNumber.digits ascii nonempty).tail tailForm), begins_digits ascii nonempty _⟩

def BeginsOperand (text : List Char) : Prop :=
  ∃ first more, text = first :: more ∧ beginsOperand first = true

theorem BeginsOperand.append {text : List Char} (begins : BeginsOperand text) (rest : List Char) :
    BeginsOperand (text ++ rest) := by
  obtain ⟨first, more, rfl, begins⟩ := begins
  exact ⟨first, more ++ rest, rfl, begins⟩

theorem IsWord.beginsOperand {text : List Char} (word : IsWord text) : BeginsOperand text := by
  obtain ⟨first, more, same, begins⟩ := word.begins
  exact ⟨first, more, same, by rw [CExpr.beginsOperand, begins, Bool.true_or]⟩

theorem beginsOperand_literal (negative : Bool) {text : List Char} (word : IsWord text) :
    BeginsOperand (if negative then '-' :: text else text) := by
  cases negative with
  | false => exact word.beginsOperand
  | true => exact ⟨'-', text, rfl, by decide⟩

end Begins

/-! How the pieces of an expression are taken one after the other. -/
section Taken

variable {text rest : List Char} {pieces : List (List Char)}

theorem Divides.sign (op : UnOp) (apart : ∀ next ∈ text.head?, next ∉ continuations op.symbol)
    (behind : Divides text pieces) : Divides (op.symbol :: text) ([op.symbol] :: pieces) := by
  refine @Divides.token [op.symbol] text pieces (Longest.single ?_ ?_ ?_ ?_ apart) behind <;>
    cases op <;> decide

theorem Divides.opening (behind : Divides text pieces) : Divides ('(' :: text) (['('] :: pieces) := by
  have nothing : continuations '(' = [] := by decide
  refine @Divides.token ['('] text pieces (.single ?_ ?_ ?_ ?_ fun _ _ => nothing ▸ List.not_mem_nil)
    behind <;> decide

theorem Divides.literal (negative : Bool) {cls : TokenClass} (word : IsWord text)
    (stops : Stops rest) (behind : Divides rest pieces) :
    Divides ((if negative then '-' :: text else text) ++ rest)
      (List.map Piece.text (Expr.signPieces negative ++ [⟨cls, text⟩]) ++ pieces) := by
  have taken : Divides (text ++ rest) (text :: pieces) := .token (.alone word.token stops) behind
  cases negative with
  | false => exact taken
  | true =>
      refine Divides.sign .neg ?_ taken
      obtain ⟨first, more, rfl, begins⟩ := word.begins
      rintro next ⟨⟩ goesOn
      have known : (continuations '-').any continuesIdentifier = false := by decide
      exact List.any_eq_false.mp known _ goesOn begins

theorem token_operator (op : BinOp) : CToken op.token := by
  cases op <;> exact .mark (by decide)

end Taken

namespace Expr

theorem exists_word_double (value : Double) : ∃ negative text cls, IsWord text ∧
    value.chars = (if negative then '-' :: text else text) ∧
    doublePieces value = signPieces negative ++ [⟨cls, text⟩] := by
  cases value with
  | finite negative units fits =>
      obtain ⟨digits, exponent, form, _⟩ := Double.magnitudeChars_form fits
      exact ⟨negative, _, .double, isWord_decimal form, rfl, rfl⟩
  | infinite negative =>
      exact ⟨negative, _, .identifier, isWord_identifier (by decide), chars_infinite negative, rfl⟩
  | nan => exact ⟨false, _, .identifier, isWord_identifier (by decide), rfl, rfl⟩

theorem exists_word_integer (value : Int) : ∃ negative text cls, IsWord text ∧
    integerChars value = (if negative then '-' :: text else text) ∧
    integerPieces value = signPieces negative ++ [⟨cls, text⟩] := by
  cases value with
  | ofNat magnitude =>
      exact ⟨false, _, .integer, isWord_digits (digitsOf_ascii _) (digitsOf_ne_nil _), rfl, rfl⟩
  | negSucc predecessor =>
      exact ⟨true, _, .integer, isWord_digits (digitsOf_ascii _) (digitsOf_ne_nil _), rfl, rfl⟩

theorem beginsOperand_chars {e : Expr} (names : e.EveryLeaf HasReadableName) :
    BeginsOperand e.chars := by
  induction e with
  | integer value =>
      obtain ⟨negative, text, _, word, written, _⟩ := exists_word_integer value
      rw [chars, written]
      exact beginsOperand_literal negative word
  | double value =>
      obtain ⟨negative, text, _, word, written, _⟩ := exists_word_double value
      rw [chars, written]
      exact beginsOperand_literal negative word
  | var name => exact (isWord_identifier names).beginsOperand
  | unary op operand _ =>
      have begins : beginsOperand op.symbol = true := by cases op <;> decide
      unfold chars signed
      split <;> exact ⟨op.symbol, _, rfl, begins⟩
  | binary op lhs rhs left _ =>
      rw [chars, List.append_assoc]
      exact (left names.1).append _
  | parens inner _ => exact ⟨'(', _, rfl, by decide⟩

/-- What stands behind the tree is cut as it would be without the tree. -/
theorem divides_chars {e : Expr} (names : e.EveryLeaf HasReadableName) {rest : List Char}
    {more : List (List Char)} (stops : Stops rest) (behind : Divides rest more) :
    Divides (e.chars ++ rest) (e.pieces.map Piece.text ++ more) := by
  induction e generalizing rest more with
  | integer value =>
      obtain ⟨negative, text, cls, word, written, same⟩ := exists_word_integer value
      rw [chars, pieces, written, same]
      exact .literal negative word stops behind
  | double value =>
      obtain ⟨negative, text, cls, word, written, same⟩ := exists_word_double value
      rw [chars, pieces, written, same]
      exact .literal negative word stops behind
  | var name => exact .literal false (isWord_identifier names) stops behind
  | unary op operand ih =>
      have operandBehind := ih names stops behind
      unfold chars signed
      split
      · refine .sign op ?_ operandBehind.space
        rintro next ⟨⟩
        cases op <;> decide
      · rename_i other
        refine .sign op ?_ operandBehind
        have front : BeginsOperand operand.chars := beginsOperand_chars names
        obtain ⟨first, run, same, begins⟩ := front
        rw [same] at other ⊢
        rintro next ⟨⟩
        exact UnOp.apart begins fun both => other ⟨both.1, congrArg some both.2⟩
  | binary op lhs rhs left right =>
      have second := (right names.2 stops behind).space
      have operator := (Divides.token (.alone (token_operator op) (stops_space _)) second).space
      have whole := left names.1 (stops_space _) operator
      simpa [chars, pieces] using whole
  | parens inner ih =>
      have closing : CToken [')'] := .mark (by decide)
      have last := Divides.token (.alone closing stops) behind
      have whole := (ih names (stops_closing _) last).opening
      simpa [chars, pieces] using whole

/-- The text of a tree is cut into the pieces of the tree, and C cuts it at the very same places. So
neither of the two signs that are tokens of C when doubled is ever doubled. -/
theorem text_boundaries (e : Expr) (names : e.EveryLeaf HasReadableName) :
    ∃ tokens, tokenize e.text.toList = .ok tokens ∧ tokens.map Token.piece = e.pieces ∧
      (∀ placed, Split 0 e.text.toList placed ↔
        placed = tokens.map fun token => (token.position, token.text)) ∧
      ¬ ['+', '+'] <:+: e.text.toList ∧ ¬ ['-', '-'] <:+: e.text.toList := by
  rw [text, String.toList_ofList]
  obtain ⟨tokens, cut, same⟩ := tokenize_chars names
  obtain ⟨placed, split, taken⟩ := divides_chars names stops_nil .nil 0
  rw [List.append_nil] at split taken
  have texts : placed.map Prod.snd = tokens.map Token.text := by
    rw [taken, ← same, List.map_map]
    rfl
  have places := split.eq_of_tokensFrom cut texts
  have lone {c : Char} (sign : c = '+' ∨ c = '-') : ∀ piece ∈ placed.map Prod.snd, Lone c piece := by
    rw [texts]
    intro piece member
    obtain ⟨token, listed, rfl⟩ := List.mem_map.mp member
    exact lone_of_belongs sign (belongs_of_tokenize cut token listed)
  refine ⟨tokens, cut, same, fun others => ⟨fun again => ?_, ?_⟩, ?_, ?_⟩
  · rw [split.unique again, places]
  · rintro rfl
    exact places ▸ split
  · exact split.not_infix (.inl rfl) (lone (.inl rfl))
  · exact split.not_infix (.inr rfl) (lone (.inr rfl))

/-- `- -1 - + +(x * -2.5)`, where signs meet a literal, a sign and an operator. -/
theorem text_boundaries_signs :
    let product := binary .mult (var "x") (double (.ofNumeral true "2.5".toList))
    let e := binary .minus (unary .neg (integer (-1))) (unary .plus (unary .plus (parens product)))
    e.EveryLeaf HasReadableName ∧
    ∃ tokens, tokenize e.text.toList = .ok tokens ∧ tokens.map Token.piece = e.pieces ∧
      (∀ placed, Split 0 e.text.toList placed ↔
        placed = tokens.map fun token => (token.position, token.text)) ∧
      ¬ ['+', '+'] <:+: e.text.toList ∧ ¬ ['-', '-'] <:+: e.text.toList := by
  intro product e
  have x : isIdentifier "x".toList = true := by decide
  have names : e.EveryLeaf HasReadableName := ⟨trivial, x, trivial⟩
  exact ⟨names, text_boundaries e names⟩

end Expr
end CExpr
