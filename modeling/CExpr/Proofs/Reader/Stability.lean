import CExpr.Proofs.Expr.Layout
import CExpr.Proofs.Expr.SpelledOut

/-!
Reading what was written and writing it again changes nothing. Every tree has a text that can be
read, since the grammar does not ask how the tree was grouped. The tree that comes back is grouped by
precedence and may be another one, but it has the same lexemes, and these fix the text.
-/
namespace CExpr

namespace Derives

variable {allowed : Option (List String)} {category : Category} {lhs rhs tokens : List Token}
  {token : Token}

theorem signed {op : UnOp} (cls : token.cls = .operator) (text : token.text = op.token)
    (derived : Derives allowed .expression tokens) :
    Derives allowed .expression (token :: tokens) := by
  generalize whole : Category.expression = category at derived
  induction derived with
  | operand first => exact .operand (.sign cls text first)
  | chain _ operator same operand before => exact .chain (before whole) operator same operand
  | integer | double | identifier | parens | primary | sign => cases whole

theorem joined {op : BinOp} (left : Derives allowed .expression lhs) (cls : token.cls = .operator)
    (text : token.text = op.token) (right : Derives allowed .expression rhs) :
    Derives allowed .expression (lhs ++ token :: rhs) := by
  generalize whole : Category.expression = category at right
  induction right with
  | operand last => exact .chain left cls text last
  | @chain before operand outer binary _ operator same last ih =>
      have chained := Derives.chain (ih whole) operator same last
      rw [List.append_assoc] at chained
      exact chained
  | integer | double | identifier | parens | primary | sign => cases whole

end Derives

namespace Expr
open Text

/-- Whatever its grouping, a tree is derived from tokens that say what it says. -/
theorem derives_of_lexemes {e : Expr} {tokens : List Token}
    (means : tokens.map Token.lexeme = e.lexemes) : Derives none .expression tokens := by
  induction e generalizing tokens with
  | integer value =>
      obtain ⟨token, rfl, same⟩ := List.map_eq_singleton_iff.mp means
      exact .operand (.primary (.integer (Token.cls_of_lexeme same)))
  | double value =>
      obtain ⟨token, rfl, same⟩ := List.map_eq_singleton_iff.mp means
      exact .operand (.primary (.double (Token.cls_of_lexeme same)))
  | var name =>
      obtain ⟨token, rfl, same⟩ := List.map_eq_singleton_iff.mp means
      exact .operand (.primary (.identifier (Token.cls_of_lexeme same) fun _ list => nomatch list))
  | unary op operand ih =>
      obtain ⟨token, rest, rfl, sign, later⟩ := List.map_eq_cons_iff.mp means
      obtain ⟨cls, text⟩ := Token.operator_of_lexeme sign
      exact (ih later).signed cls text
  | binary op lhs rhs left right =>
      obtain ⟨before, behind, rfl, first, others⟩ := List.map_eq_append_iff.mp means
      obtain ⟨token, rest, rfl, operator, last⟩ := List.map_eq_cons_iff.mp others
      obtain ⟨cls, text⟩ := Token.operator_of_lexeme operator
      exact (left first).joined cls text (right last)
  | parens inner ih =>
      obtain ⟨opening, others, rfl, opened, behind⟩ := List.map_eq_cons_iff.mp means
      obtain ⟨body, ending, rfl, middle, last⟩ := List.map_eq_append_iff.mp behind
      obtain ⟨closing, rfl, closed⟩ := List.map_eq_singleton_iff.mp last
      exact .operand (.primary (.parens (Token.cls_of_lexeme opened) (ih middle)
        (Token.cls_of_lexeme closed)))

theorem readableName_of_legible {e : Expr} (legible : ∀ lexeme ∈ e.lexemes, lexeme.Legible) :
    e.EveryLeaf HasReadableName := by
  induction e with
  | integer value | double value => trivial
  | var name => exact legible _ (List.mem_singleton_self _)
  | unary op operand ih =>
      exact ih fun lexeme member => legible lexeme (List.mem_cons_of_mem _ member)
  | binary op lhs rhs left right =>
      constructor
      · exact left fun lexeme member => legible lexeme (List.mem_append_left _ member)
      · exact right fun lexeme member =>
          legible lexeme (List.mem_append_right _ (List.mem_cons_of_mem _ member))
  | parens inner ih =>
      exact ih fun lexeme member =>
        legible lexeme (List.mem_append_left _ (List.mem_cons_of_mem _ member))

theorem Reads.readableName {t : Expr} {tokens : List Token} (reads : t.Reads tokens)
    (shapes : ∀ token ∈ tokens, token.WellFormed) : t.EveryLeaf HasReadableName := by
  apply readableName_of_legible
  intro lexeme member
  rw [← reads.lexemes] at member
  obtain ⟨token, old, rfl⟩ := List.mem_map.mp member
  exact Token.lexeme_legible (shapes token old)

/-- The tokens of a printed tree say what the tree says once its constants are spelled out, and no
limit of the reader stands against them. -/
theorem exists_readable_tokens {e : Expr} (names : e.EveryLeaf HasReadableName)
    (short : e.EveryLeaf IsShort) :
    ∃ tokens, tokenize e.chars = .ok tokens ∧
      tokens.map Token.lexeme = e.spelledOut.lexemes ∧ ∀ token ∈ tokens, token.Readable none := by
  have free : e.spelledOut.EveryLeaf (IsListed none) :=
    (plain_spelledOut names).imp fun leaf _ _ => leaf.isListed_none
  have found := exists_tokens_of_plain (plain_spelledOut names) (short_spelledOut short) free
  rwa [chars_spelledOut] at found

/-- The text of a tree can be read, and what comes back has the same text. -/
theorem text_read_text (e : Expr) (names : e.EveryLeaf HasReadableName)
    (short : e.EveryLeaf IsShort) :
    ∃ t, Expr.read e.text.toList none = .ok t ∧ t.text = e.text := by
  obtain ⟨tokens, cut, means, readable⟩ := exists_readable_tokens names short
  obtain ⟨t, reads, _⟩ := exists_reads_of_derives (derives_of_lexemes means)
  have returned := Reader.readTokens_of_reads t tokens e.chars.length reads readable
  have readNames := reads.readableName fun token member => (readable token member).wellFormed
  have spelledNames := (plain_spelledOut names).imp fun _ _ => IsPlain.name
  have chars : t.chars = e.chars := by
    calc t.chars
      _ = Lexeme.layout true t.lexemes := chars_eq_layout readNames
      _ = Lexeme.layout true e.spelledOut.lexemes := by rw [← reads.lexemes, means]
      _ = e.spelledOut.chars := (chars_eq_layout spelledNames).symm
      _ = e.chars := chars_spelledOut e
  refine ⟨t, ?_, congrArg String.ofList chars⟩
  rw [text, String.toList_ofList, read_of_tokenize cut]
  exact returned

/-- The text `-3 + nan * - -2 - x` of a product of a sum and a negated difference comes back as a
difference, with three signs for one and a variable for the double. -/
theorem text_read_text_regrouped :
    let e := binary .mult (binary .plus (integer (-3)) (double .nan))
      (unary .neg (binary .minus (integer (-2)) (var "x")))
    let t := binary .minus (binary .plus (unary .neg (integer 3))
      (binary .mult (var "nan") (unary .neg (unary .neg (integer 2))))) (var "x")
    (e.EveryLeaf HasReadableName ∧ e.EveryLeaf IsShort) ∧
      Expr.read e.text.toList none = .ok t ∧ t ≠ e ∧ t.text = e.text := by
  intro e t
  have names : e.EveryLeaf HasReadableName :=
    ⟨⟨trivial, trivial⟩, trivial, (by decide : isIdentifier "x".toList = true)⟩
  have short : e.EveryLeaf IsShort :=
    ⟨⟨(by decide : (digitsOf 3).length ≤ maxDigits), trivial⟩,
      (by decide : (digitsOf 2).length ≤ maxDigits), trivial⟩
  have returned : Expr.read e.text.toList none = .ok t := ok_of_toOption (by decide +kernel)
  obtain ⟨found, again, same⟩ := text_read_text e names short
  cases returned.symm.trans again
  exact ⟨⟨names, short⟩, returned, by decide, same⟩

end Expr
end CExpr
