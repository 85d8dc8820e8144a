import CExpr.Proofs.Expr.Pieces
import CExpr.Proofs.Reader.Exactness

/-!
Which trees their own text reads back as. A tree that is grouped by precedence and whose leaves are
written as single tokens reads back as itself. Nothing else reads back even as an equal tree: what
comes out of reading is grouped by precedence, a sign in front of a constant comes out as an
operator, and the special values of doubles come out as variables.
-/
namespace CExpr
open Text

namespace Lexeme

def Legible : Lexeme → Prop
  | integer value => 0 ≤ value
  | double value => value.HasSign false
  | identifier name => isIdentifier name.toList = true
  | _ => True

end Lexeme

theorem Token.lexeme_legible {token : Token} (shape : token.WellFormed) : token.lexeme.Legible := by
  cases cls : token.cls with
  | integer => simp [lexeme, cls, Lexeme.Legible]
  | double =>
      simp only [lexeme, cls]
      exact Double.ofNumeral_hasSign false token.text
  | identifier =>
      simp only [WellFormed, cls] at shape
      simp [lexeme, cls, Lexeme.Legible, shape]
  | operator | leftParen | rightParen => simp [lexeme, cls, Lexeme.Legible]

namespace Expr

def IsPlain : Expr → Prop
  | integer value => 0 ≤ value
  | double value => ∃ units fits, value = .finite false units fits
  | var name => isIdentifier name.toList = true
  | _ => True

def IsShort : Expr → Prop
  | integer value => (digitsOf value.natAbs).length ≤ maxDigits
  | _ => True

def IsListed (allowed : Option (List String)) : Expr → Prop
  | var name => ∀ names ∈ allowed, name ∈ names
  | _ => True

theorem isListed_none (leaf : Expr) : leaf.IsListed none := by
  cases leaf <;> simp [IsListed]

theorem IsPlain.name {leaf : Expr} (plain : leaf.IsPlain) : leaf.HasReadableName := by
  cases leaf with
  | var name => exact plain
  | integer _ | double _ | unary _ _ | binary _ _ _ | parens _ => trivial

theorem lexemes_of_plain {e : Expr} (plain : e.EveryLeaf IsPlain) :
    e.pieces.map Piece.lexeme = e.lexemes := by
  induction e with
  | integer value =>
      cases value with
      | ofNat magnitude => simp [pieces, integerPieces, Piece.lexeme, Token.lexeme, lexemes]
      | negSucc predecessor => exact absurd plain (by simp [EveryLeaf, IsPlain])
  | double value =>
      obtain ⟨units, fits, rfl⟩ := plain
      simp [pieces, doublePieces, signPieces, Piece.lexeme, Token.lexeme, lexemes,
        Double.ofNumeral_magnitudeChars fits]
  | var name => simp [pieces, Piece.lexeme, Token.lexeme, lexemes]
  | unary op operand ih => simp [pieces, lexemes, ih plain, Piece.lexeme, Token.lexeme]
  | binary op lhs rhs left right =>
      simp [pieces, lexemes, left plain.1, right plain.2, Piece.lexeme, Token.lexeme]
  | parens inner ih => simp [pieces, lexemes, ih plain, Piece.lexeme, Token.lexeme]

theorem short_of_mem_pieces {e : Expr} (short : e.EveryLeaf IsShort) :
    ∀ piece ∈ e.pieces, piece.cls = .integer → piece.text.length ≤ maxDigits := by
  refine forall_pieces (fun _ cls => nomatch cls) (fun cls => nomatch cls)
    (fun cls => nomatch cls) (short.imp fun leaf isLeaf fits piece member cls => ?_)
  cases leaf with
  | integer value =>
      cases value with
      | ofNat magnitude =>
          rw [List.mem_singleton.mp member]
          exact fits
      | negSucc predecessor =>
          rcases List.mem_append.mp member with sign | digits
          · rw [cls_of_mem_signPieces sign] at cls
            cases cls
          · rw [List.mem_singleton.mp digits]
            exact fits
  | double value =>
      exact absurd cls (cls_of_mem_doublePieces member)
  | var name =>
      rw [List.mem_singleton.mp member] at cls
      cases cls
  | unary op operand | parens operand => cases isLeaf
  | binary op lhs rhs => cases isLeaf

theorem listed_of_mem_pieces {e : Expr} {allowed : Option (List String)}
    (plain : e.EveryLeaf IsPlain) (listed : e.EveryLeaf (IsListed allowed)) :
    ∀ piece ∈ e.pieces, piece.cls = .identifier →
      ∀ names ∈ allowed, String.ofList piece.text ∈ names := by
  refine forall_pieces (fun _ cls => nomatch cls) (fun cls => nomatch cls)
    (fun cls => nomatch cls) ((plain.and listed).imp fun leaf isLeaf fits piece member cls => ?_)
  obtain ⟨plain, listed⟩ := fits
  cases leaf with
  | integer value =>
      cases value with
      | ofNat magnitude =>
          rw [List.mem_singleton.mp member] at cls
          cases cls
      | negSucc predecessor => exact absurd plain (by simp [IsPlain])
  | double value =>
      obtain ⟨units, fits, rfl⟩ := plain
      rw [List.mem_singleton.mp member] at cls
      cases cls
  | var name =>
      rw [List.mem_singleton.mp member, String.ofList_toList]
      exact listed
  | unary op operand | parens operand => cases isLeaf
  | binary op lhs rhs => cases isLeaf

theorem exists_tokens_of_plain {e : Expr} {allowed : Option (List String)}
    (plain : e.EveryLeaf IsPlain) (short : e.EveryLeaf IsShort)
    (listed : e.EveryLeaf (IsListed allowed)) :
    ∃ tokens, tokenize e.chars = .ok tokens ∧ tokens.map Token.lexeme = e.lexemes ∧
      ∀ token ∈ tokens, token.Readable allowed := by
  obtain ⟨tokens, cut, same⟩ := tokenize_chars (plain.imp fun _ _ => IsPlain.name)
  refine ⟨tokens, cut, ?_, fun token member => ?_⟩
  · rw [← lexemes_of_plain plain, ← same, List.map_map]
    rfl
  · have piece : token.piece ∈ e.pieces := same ▸ List.mem_map_of_mem member
    exact ⟨tokensFrom_wellFormed 0 e.chars tokens cut token member,
      short_of_mem_pieces short _ piece, listed_of_mem_pieces plain listed _ piece⟩

/-- A tree of plain leaves that is grouped by precedence reads back as itself. -/
theorem read_chars {e : Expr} {allowed : Option (List String)} (correct : e.PrecedenceCorrect)
    (plain : e.EveryLeaf IsPlain) (short : e.EveryLeaf IsShort)
    (listed : e.EveryLeaf (IsListed allowed)) : Expr.read e.chars allowed = .ok e := by
  obtain ⟨tokens, cut, means, readable⟩ := exists_tokens_of_plain plain short listed
  rw [read_of_tokenize cut allowed]
  exact Reader.readTokens_of_reads e tokens e.chars.length ⟨means, correct⟩ readable

/-! What an equal tree has in common. -/
section Same

theorem precedence_of_same {t e : Expr} (same : t.same e = true) :
    t.precedence = e.precedence := by
  fun_cases Expr.same t e <;> simp_all [Expr.same, precedence]

theorem precedenceCorrect_of_same {t e : Expr} (same : t.same e = true)
    (correct : t.PrecedenceCorrect) : e.PrecedenceCorrect := by
  fun_induction Expr.same t e with
  | case1 a b | case2 a b | case3 a b => trivial
  | case4 p a q b ih =>
      simp only [Bool.and_eq_true] at same
      exact ⟨precedence_of_same same.2 ▸ correct.1, ih same.2 correct.2⟩
  | case5 p a c q b d left right =>
      simp only [Bool.and_eq_true, beq_iff_eq] at same
      obtain ⟨⟨rfl, sameLeft⟩, sameRight⟩ := same
      obtain ⟨leftFits, rightFits, leftCorrect, rightCorrect⟩ := correct
      exact ⟨precedence_of_same sameLeft ▸ leftFits, precedence_of_same sameRight ▸ rightFits,
        left sameLeft leftCorrect, right sameRight rightCorrect⟩
  | case6 a b ih => exact ih same correct
  | case7 a b => cases same

theorem readableName_of_same {t e : Expr} (same : t.same e = true)
    (legible : ∀ lexeme ∈ t.lexemes, lexeme.Legible) : e.EveryLeaf HasReadableName := by
  fun_induction Expr.same t e with
  | case1 a b | case2 a b => trivial
  | case3 a b => exact beq_iff_eq.mp same ▸ legible _ (List.mem_singleton_self _)
  | case4 p a q b ih =>
      simp only [Bool.and_eq_true] at same
      exact ih same.2 fun lexeme member => legible lexeme (List.mem_cons_of_mem _ member)
  | case5 p a c q b d left right =>
      simp only [Bool.and_eq_true] at same
      exact ⟨left same.1.2 fun lexeme member => legible lexeme (List.mem_append_left _ member),
        right same.2 fun lexeme member =>
          legible lexeme (List.mem_append_right _ (List.mem_cons_of_mem _ member))⟩
  | case6 a b ih =>
      exact ih same fun lexeme member =>
        legible lexeme (List.mem_append_left _ (List.mem_cons_of_mem _ member))
  | case7 a b => cases same

/-- A double whose text begins with a token of the double class has no sign and is finite. -/
theorem plain_double {x y : Double} (same : x.equals y = true) (number : x.HasSign false)
    {behind other : List Lexeme}
    (cut : (doublePieces y).map Piece.lexeme ++ behind = .double x :: other) :
    (∃ units fits, y = .finite false units fits) ∧ behind = other := by
  cases y with
  | nan =>
      rcases number with ⟨units, fits, rfl⟩ | rfl <;> simp [Double.equals] at same
  | infinite negative =>
      rcases number with ⟨units, fits, rfl⟩ | rfl <;> simp [Double.equals] at same
      subst same
      cases cut
  | finite negative units fits =>
      cases negative with
      | true => cases cut
      | false => exact ⟨⟨units, fits, rfl⟩, (List.cons.inj cut).2⟩

theorem plain_of_same {t e : Expr} (same : t.same e = true)
    (legible : ∀ lexeme ∈ t.lexemes, lexeme.Legible) {behind other : List Lexeme}
    (cut : e.pieces.map Piece.lexeme ++ behind = t.lexemes ++ other) :
    e.EveryLeaf IsPlain ∧ behind = other := by
  -- What is behind the two trees is general, so that operands can be taken off one after the other.
  fun_induction Expr.same t e generalizing behind other with
  | case1 a b =>
      -- Read integers have no sign, so the first piece of the text is the constant itself.
      cases beq_iff_eq.mp same
      have plain : (integer a).EveryLeaf IsPlain := legible _ (List.mem_singleton_self _)
      rw [lexemes_of_plain plain] at cut
      exact ⟨plain, List.append_cancel_left cut⟩
  | case2 a b => exact plain_double same (legible _ (List.mem_singleton_self _)) cut
  | case3 a b =>
      cases beq_iff_eq.mp same
      have plain : (var a).EveryLeaf IsPlain := legible _ (List.mem_singleton_self _)
      rw [lexemes_of_plain plain] at cut
      exact ⟨plain, List.append_cancel_left cut⟩
  | case4 p a q b ih =>
      simp only [Bool.and_eq_true] at same
      exact ih same.2 (fun lexeme member => legible lexeme (List.mem_cons_of_mem _ member))
        (List.cons.inj cut).2
  | case5 p a c q b d left right =>
      simp only [Bool.and_eq_true] at same
      simp only [pieces, lexemes, List.map_append, List.append_assoc] at cut
      -- The left operands use up equally much, so the operators stand against each other again.
      obtain ⟨leftPlain, rest⟩ := left same.1.2
        (fun lexeme member => legible lexeme (List.mem_append_left _ member)) cut
      obtain ⟨rightPlain, last⟩ := right same.2 (fun lexeme member =>
        legible lexeme (List.mem_append_right _ (List.mem_cons_of_mem _ member)))
        (List.cons.inj rest).2
      exact ⟨⟨leftPlain, rightPlain⟩, last⟩
  | case6 a b ih =>
      simp only [pieces, lexemes, List.map_append, List.append_assoc, List.map_cons,
        List.cons_append] at cut
      obtain ⟨plain, rest⟩ := ih same (fun lexeme member =>
        legible lexeme (List.mem_append_left _ (List.mem_cons_of_mem _ member)))
        (List.cons.inj cut).2
      exact ⟨plain, (List.cons.inj rest).2⟩
  | case7 a b => cases same

theorem same_self {e : Expr} (plain : e.EveryLeaf IsPlain) : e.same e = true := by
  induction e with
  | integer value | var name => exact beq_self_eq_true _
  | double value =>
      obtain ⟨units, fits, rfl⟩ := plain
      exact beq_self_eq_true _
  | unary op operand ih => simp [same, ih plain]
  | binary op lhs rhs left right => simp [same, left plain.1, right plain.2]
  | parens inner ih => exact ih plain

end Same

/-- The trees that come back out of their own text. Equality of what is read is as numbers compare,
and nevertheless nothing but the tree itself ever comes back. -/
theorem read_text_same_iff (e : Expr) (short : e.EveryLeaf IsShort) :
    ((∃ t, Expr.read e.text.toList none = .ok t ∧ t.same e = true) ↔
        e.PrecedenceCorrect ∧ e.EveryLeaf IsPlain) ∧
      (e.PrecedenceCorrect ∧ e.EveryLeaf IsPlain → Expr.read e.text.toList none = .ok e) := by
  have back : e.PrecedenceCorrect ∧ e.EveryLeaf IsPlain →
      Expr.read e.text.toList none = .ok e := by
    rintro ⟨correct, plain⟩
    rw [text, String.toList_ofList]
    exact read_chars correct plain short (plain.imp fun leaf _ _ => leaf.isListed_none)
  refine ⟨⟨?_, fun good => ⟨e, back good, same_self good.2⟩⟩, back⟩
  rintro ⟨t, returned, same⟩
  rw [text, String.toList_ofList] at returned
  cases cut : tokenize e.chars with
  | error unexpected =>
      rw [Expr.read, cut] at returned
      cases returned
  | ok tokens =>
      rw [read_of_tokenize cut] at returned
      have shapes := tokensFrom_wellFormed 0 e.chars tokens cut
      have reads := (Reader.built_of_readTokens shapes returned).reads
      have legible : ∀ lexeme ∈ t.lexemes, lexeme.Legible := by
        intro lexeme member
        rw [← reads.lexemes] at member
        obtain ⟨token, old, rfl⟩ := List.mem_map.mp member
        exact Token.lexeme_legible (shapes token old)
      -- An equal tree has the same names, and those were read. So the tokens of the text are known
      -- after all, and the constants are all that is left to compare.
      obtain ⟨found, cutAgain, pieces⟩ := tokenize_chars (readableName_of_same same legible)
      cases Except.ok.inj (cut.symm.trans cutAgain)
      have lexemes : e.pieces.map Piece.lexeme = t.lexemes := by
        rw [← pieces, List.map_map, ← reads.lexemes]
        rfl
      have plain := plain_of_same same legible (congrArg (· ++ []) lexemes)
      exact ⟨precedenceCorrect_of_same same reads.grouped, plain.1⟩

/-- `(x - 7) * -0` comes back as the product of a parenthesised difference and a negated zero. -/
theorem read_text_same_product :
    let e := binary .mult (parens (binary .minus (var "x") (integer 7))) (unary .neg (integer 0))
    e.EveryLeaf IsShort ∧ Expr.read e.text.toList none = .ok e := by
  intro e
  have seven : (digitsOf 7).length ≤ maxDigits := by decide
  have zero : (digitsOf 0).length ≤ maxDigits := by decide
  have short : e.EveryLeaf IsShort := ⟨⟨trivial, seven⟩, zero⟩
  refine ⟨short, (read_text_same_iff e short).2 ⟨?_, ?_⟩⟩
  · simp [e, PrecedenceCorrect, precedence, BinOp.precedence, UnOp.precedence]
  · simp [e, EveryLeaf, IsPlain]
    decide

end Expr
end CExpr
