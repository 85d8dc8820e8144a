import CExpr.Expr.Basic
import CExpr.Proofs.Expr.Lexeme
import CExpr.Proofs.Token.Spelling

/-!
The tokens that the text of an expression is cut into. They are known for every tree whose variables
have names that can be read as names: a negative constant turns into a sign and its magnitude, and
the special values of doubles turn into names. No two of them are ever joined into one.
-/
namespace CExpr
open Text

def Piece.lexeme (piece : Piece) : Lexeme := Token.lexeme ⟨piece.cls, piece.text, 0⟩

namespace Expr

def EveryLeaf (test : Expr → Prop) : Expr → Prop
  | unary _ operand => operand.EveryLeaf test
  | binary _ lhs rhs => lhs.EveryLeaf test ∧ rhs.EveryLeaf test
  | parens inner => inner.EveryLeaf test
  | leaf => test leaf

theorem EveryLeaf.imp {weak strong : Expr → Prop}
    (weaker : ∀ leaf : Expr, leaf.children = [] → strong leaf → weak leaf) {e : Expr}
    (all : e.EveryLeaf strong) : e.EveryLeaf weak := by
  induction e with
  | integer value | double value | var name => exact weaker _ rfl all
  | unary op operand ih | parens operand ih => exact ih all
  | binary op lhs rhs left right => exact ⟨left all.1, right all.2⟩

theorem EveryLeaf.and {first second : Expr → Prop} {e : Expr} (one : e.EveryLeaf first)
    (two : e.EveryLeaf second) : e.EveryLeaf fun leaf => first leaf ∧ second leaf := by
  induction e with
  | integer value | double value | var name => exact ⟨one, two⟩
  | unary op operand ih | parens operand ih => exact ih one two
  | binary op lhs rhs left right => exact ⟨left one.1 two.1, right one.2 two.2⟩

def HasReadableName : Expr → Prop
  | var name => isIdentifier name.toList = true
  | _ => True

def signPieces (negative : Bool) : List Piece :=
  if negative then [⟨.operator, UnOp.neg.token⟩] else []

def integerPieces : Int → List Piece
  | .ofNat magnitude => [⟨.integer, digitsOf magnitude⟩]
  | .negSucc predecessor => signPieces true ++ [⟨.integer, digitsOf (predecessor + 1)⟩]

def doublePieces : Double → List Piece
  | .finite negative units _ =>
    signPieces negative ++ [⟨.double, Double.magnitudeChars units⟩]
  | .infinite negative => signPieces negative ++ [⟨.identifier, ['i', 'n', 'f']⟩]
  | .nan => [⟨.identifier, ['n', 'a', 'n']⟩]

def pieces : Expr → List Piece
  | integer value => integerPieces value
  | double value => doublePieces value
  | var name => [⟨.identifier, name.toList⟩]
  | unary op operand => ⟨.operator, op.token⟩ :: operand.pieces
  | binary op lhs rhs => lhs.pieces ++ ⟨.operator, op.token⟩ :: rhs.pieces
  | parens inner => ⟨.leftParen, ['(']⟩ :: inner.pieces ++ [⟨.rightParen, [')']⟩]

theorem cls_of_mem_signPieces {negative : Bool} {piece : Piece}
    (member : piece ∈ signPieces negative) : piece.cls = .operator := by
  cases negative with
  | false => cases member
  | true => rw [List.mem_singleton.mp member]

theorem cls_of_mem_doublePieces {value : Double} {piece : Piece}
    (member : piece ∈ doublePieces value) : piece.cls ≠ .integer := by
  cases value with
  | finite negative units fits | infinite negative =>
      rcases List.mem_append.mp member with sign | magnitude
      · simp [cls_of_mem_signPieces sign]
      · simp [List.mem_singleton.mp magnitude]
  | nan => simp [List.mem_singleton.mp member]

theorem forall_pieces {p : Piece → Prop} (operator : ∀ text, p ⟨.operator, text⟩)
    (opening : p ⟨.leftParen, ['(']⟩) (closing : p ⟨.rightParen, [')']⟩) {e : Expr}
    (leaves : e.EveryLeaf fun leaf => ∀ piece ∈ leaf.pieces, p piece) :
    ∀ piece ∈ e.pieces, p piece := by
  induction e with
  | integer value | double value | var name => exact leaves
  | unary op operand ih =>
      intro piece member
      rcases List.mem_cons.mp member with rfl | inside
      · exact operator _
      · exact ih leaves piece inside
  | binary op lhs rhs left right =>
      intro piece member
      rcases List.mem_append.mp member with before | behind
      · exact left leaves.1 piece before
      · rcases List.mem_cons.mp behind with rfl | after
        · exact operator _
        · exact right leaves.2 piece after
  | parens inner ih =>
      intro piece member
      rcases List.mem_append.mp member with before | last
      · rcases List.mem_cons.mp before with rfl | inside
        · exact opening
        · exact ih leaves piece inside
      · rw [List.mem_singleton.mp last]
        exact closing

/-! The text of a tree spells its pieces. -/
section Spelling

theorem spells_signed (negative : Bool) {text : List Char} {piece : Piece} (opens : Opens text)
    (spells : Spells text [piece]) :
    Spells (if negative then '-' :: text else text) (signPieces negative ++ [piece]) := by
  cases negative with
  | false => exact spells
  | true => exact spells.sign .neg opens

theorem opens_signed (negative : Bool) {text : List Char} (opens : Opens text) :
    Opens (if negative then '-' :: text else text) := by
  cases negative with
  | false => exact opens
  | true => exact ⟨'-', text, rfl, by decide⟩

theorem spells_integer (value : Int) : Spells (integerChars value) (integerPieces value) := by
  cases value with
  | ofNat magnitude => exact .digits (digitsOf_ascii _) (digitsOf_ne_nil _)
  | negSucc predecessor =>
      have ascii := digitsOf_ascii (predecessor + 1)
      have nonempty := digitsOf_ne_nil (predecessor + 1)
      exact spells_signed true (opens_of_digits ascii nonempty) (.digits ascii nonempty)

theorem opens_integer (value : Int) : Opens (integerChars value) := by
  cases value with
  | ofNat magnitude => exact opens_of_digits (digitsOf_ascii _) (digitsOf_ne_nil _)
  | negSucc predecessor => exact ⟨'-', _, rfl, by decide⟩

theorem chars_infinite (negative : Bool) : (Double.infinite negative).chars =
    if negative then '-' :: ['i', 'n', 'f'] else ['i', 'n', 'f'] := rfl

theorem spells_double (value : Double) : Spells value.chars (doublePieces value) := by
  cases value with
  | finite negative units fits =>
      obtain ⟨digits, exponent, form, _⟩ := Double.magnitudeChars_form fits
      exact spells_signed negative (opens_of_decimal form) (.decimal form)
  | infinite negative =>
      rw [chars_infinite]
      exact spells_signed negative (opens_of_identifier (by decide)) (.identifier (by decide))
  | nan => exact .identifier (by decide)

theorem opens_double (value : Double) : Opens value.chars := by
  cases value with
  | finite negative units fits =>
      obtain ⟨digits, exponent, form, _⟩ := Double.magnitudeChars_form fits
      exact opens_signed negative (opens_of_decimal form)
  | infinite negative =>
      rw [chars_infinite]
      exact opens_signed negative (opens_of_identifier (by decide))
  | nan => exact opens_of_identifier (by decide)

theorem opens_chars {e : Expr} (names : e.EveryLeaf HasReadableName) : Opens e.chars := by
  induction e with
  | integer value => exact opens_integer value
  | double value => exact opens_double value
  | var name => exact opens_of_identifier names
  | unary op operand _ =>
      -- In both layouts the text begins with the sign itself.
      have symbol : op.symbol ≠ '=' := by cases op <;> decide
      unfold chars signed
      split <;> exact ⟨op.symbol, _, rfl, symbol⟩
  | binary op lhs rhs left _ =>
      rw [chars, List.append_assoc]
      exact (left names.1).append _
  | parens inner _ => exact ⟨'(', _, rfl, by decide⟩

theorem spells_chars {e : Expr} (names : e.EveryLeaf HasReadableName) :
    Spells e.chars e.pieces := by
  induction e with
  | integer value => exact spells_integer value
  | double value => exact spells_double value
  | var name => exact .identifier names
  | unary op operand ih =>
      unfold chars signed
      split
      -- The space that keeps two signs apart belongs to no piece.
      · exact (ih names).space.sign op ⟨' ', _, rfl, by decide⟩
      · exact (ih names).sign op (opens_chars names)
  | binary op lhs rhs left right =>
      have whole := ((left names.1).spaced (.operator op)).spaced (right names.2)
      rw [List.append_assoc lhs.pieces] at whole
      exact whole
  | parens inner ih => exact (ih names).parens

/-- A printed tree is cut into its own tokens, however it is grouped and whatever its constants. -/
theorem tokenize_chars {e : Expr} (names : e.EveryLeaf HasReadableName) :
    ∃ tokens, tokenize e.chars = .ok tokens ∧ tokens.map Token.piece = e.pieces :=
  (spells_chars names).tokenize

end Spelling
end Expr
end CExpr
