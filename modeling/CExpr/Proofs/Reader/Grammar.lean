import CExpr.Proofs.Expr.Attachment

/-!
The grammar of expressions over tokens, and the trees it stands for. Every binary operator is in one
rule, so the grammar accepts a sequence without saying how it is grouped; precedence picks one tree
for it.
-/
namespace CExpr

inductive Category
  | expression | operand | primary

def Category.level : Category → Nat
  | expression => BinOp.loosest
  | operand => UnOp.precedence
  | primary => 0

/-- An expression is operands with binary operators between them, an operand is a primary behind any
number of signs, and a primary is a literal, an allowed name or an expression in parentheses. -/
inductive Derives (allowed : Option (List String)) : Category → List Token → Prop
  | integer {token : Token} : token.cls = .integer → Derives allowed .primary [token]
  | double {token : Token} : token.cls = .double → Derives allowed .primary [token]
  | identifier {token : Token} : token.cls = .identifier →
      (∀ names ∈ allowed, String.ofList token.text ∈ names) → Derives allowed .primary [token]
  | parens {opening closing : Token} {inner : List Token} : opening.cls = .leftParen →
      Derives allowed .expression inner → closing.cls = .rightParen →
      Derives allowed .primary (opening :: inner ++ [closing])
  | primary {tokens : List Token} : Derives allowed .primary tokens →
      Derives allowed .operand tokens
  | sign {token : Token} {op : UnOp} {tokens : List Token} : token.cls = .operator →
      token.text = op.token → Derives allowed .operand tokens →
      Derives allowed .operand (token :: tokens)
  | operand {tokens : List Token} : Derives allowed .operand tokens →
      Derives allowed .expression tokens
  | chain {lhs rhs : List Token} {token : Token} {op : BinOp} : Derives allowed .expression lhs →
      token.cls = .operator → token.text = op.token → Derives allowed .operand rhs →
      Derives allowed .expression (lhs ++ token :: rhs)

/-- A tree that has the lexemes of the tokens and the grouping that precedence asks for. -/
structure Expr.Reads (tree : Expr) (tokens : List Token) : Prop where
  lexemes : tokens.map Token.lexeme = tree.lexemes
  grouped : tree.PrecedenceCorrect

theorem Expr.precedence_le_loosest (tree : Expr) : tree.precedence ≤ BinOp.loosest := by
  cases tree with
  | binary op lhs rhs => exact op.precedence_le_loosest
  | unary op operand => exact (by decide : UnOp.precedence ≤ BinOp.loosest)
  | integer | double | var | parens => exact Nat.zero_le _

theorem Token.lexeme_operator {token : Token} {text : List Char} (cls : token.cls = .operator)
    (same : token.text = text) : token.lexeme = .operator text := by
  rw [Token.lexeme, cls, same]

namespace Expr.Reads

theorem unary {op : UnOp} {operand : Expr} {token : Token} {tokens : List Token}
    (cls : token.cls = .operator) (text : token.text = op.token) (reads : operand.Reads tokens)
    (fits : operand.precedence ≤ UnOp.precedence) :
    (Expr.unary op operand).Reads (token :: tokens) := by
  constructor
  · rw [List.map_cons, reads.lexemes, Token.lexeme_operator cls text, Expr.lexemes]
  · exact ⟨fits, reads.grouped⟩

theorem parens {inner : Expr} {opening closing : Token} {tokens : List Token}
    (opened : opening.cls = .leftParen) (reads : inner.Reads tokens)
    (closed : closing.cls = .rightParen) :
    (Expr.parens inner).Reads (opening :: tokens ++ [closing]) := by
  constructor
  · simp [reads.lexemes, Token.lexeme, opened, closed, Expr.lexemes]
  · exact reads.grouped

theorem attach {tree operand : Expr} {op : BinOp} {token : Token} {lhs rhs : List Token}
    (left : tree.Reads lhs) (cls : token.cls = .operator) (text : token.text = op.token)
    (right : operand.Reads rhs) (fits : operand.precedence ≤ UnOp.precedence) :
    (tree.attach op operand).Reads (lhs ++ token :: rhs) := by
  constructor
  · rw [Expr.lexemes_attach, List.map_append, List.map_cons, left.lexemes, right.lexemes,
      Token.lexeme_operator cls text]
  · exact Expr.attach_precedenceCorrect tree op operand left.grouped right.grouped
      (Nat.lt_of_le_of_lt fits op.two_lt_precedence)

end Expr.Reads

/-- Whatever the grammar derives has a tree: operators are attached one after another. -/
theorem exists_reads_of_derives {allowed : Option (List String)} {category : Category}
    {tokens : List Token} (derived : Derives allowed category tokens) :
    ∃ tree : Expr, tree.Reads tokens ∧ tree.precedence ≤ category.level := by
  induction derived with
  | @integer token cls =>
      exact ⟨.integer (Text.ofDigits token.text),
        ⟨by simp [Token.lexeme, cls, Expr.lexemes], trivial⟩, Nat.le_refl _⟩
  | @double token cls =>
      exact ⟨.double (.ofNumeral false token.text), ⟨by simp [Token.lexeme, cls, Expr.lexemes],
        trivial⟩, Nat.le_refl _⟩
  | @identifier token cls _ =>
      exact ⟨.var (String.ofList token.text), ⟨by simp [Token.lexeme, cls, Expr.lexemes], trivial⟩,
        Nat.le_refl _⟩
  | parens opened _ closed ih =>
      obtain ⟨inner, reads, _⟩ := ih
      exact ⟨.parens inner, reads.parens opened closed, Nat.le_refl _⟩
  | primary _ ih =>
      obtain ⟨tree, reads, low⟩ := ih
      exact ⟨tree, reads, Nat.le_trans low (Nat.zero_le _)⟩
  | @sign token op tokens cls text _ ih =>
      obtain ⟨operand, reads, low⟩ := ih
      exact ⟨.unary op operand, .unary cls text reads low, Nat.le_refl _⟩
  | operand _ ih =>
      obtain ⟨tree, reads, _⟩ := ih
      exact ⟨tree, reads, tree.precedence_le_loosest⟩
  | @chain lhs rhs token op _ cls text _ left right =>
      -- How the left side was grouped is of no use here: attaching groups it anew where needed.
      obtain ⟨tree, treeReads, _⟩ := left
      obtain ⟨operand, operandReads, low⟩ := right
      exact ⟨tree.attach op operand, treeReads.attach cls text operandReads low,
        Expr.precedence_le_loosest _⟩

theorem allowed_of_derives {allowed : Option (List String)} {category : Category}
    {tokens : List Token} (derived : Derives allowed category tokens) :
    ∀ token ∈ tokens, token.cls = .identifier →
      ∀ names ∈ allowed, String.ofList token.text ∈ names := by
  induction derived with
  | integer other | double other =>
      intro token member cls
      rw [List.mem_singleton.mp member, other] at cls
      cases cls
  | identifier _ listed =>
      intro token member _
      rw [List.mem_singleton.mp member]
      exact listed
  | parens opened _ closed ih =>
      intro token member cls
      rcases List.mem_append.mp member with first | last
      · rcases List.mem_cons.mp first with rfl | inside
        · rw [opened] at cls
          cases cls
        · exact ih token inside cls
      · rw [List.mem_singleton.mp last, closed] at cls
        cases cls
  | primary _ ih | operand _ ih => exact ih
  | sign other _ _ ih =>
      intro token member cls
      rcases List.mem_cons.mp member with rfl | later
      · rw [other] at cls
        cases cls
      · exact ih token later cls
  | chain _ other _ _ left right =>
      intro token member cls
      rcases List.mem_append.mp member with before | after
      · exact left token before cls
      · rcases List.mem_cons.mp after with rfl | later
        · rw [other] at cls
          cases cls
        · exact right token later cls

end CExpr
