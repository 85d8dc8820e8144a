import CExpr.Proofs.Reader.Climbing
import CExpr.Proofs.Reader.Soundness

/-!
Reading is exact: a text is accepted just when the grammar derives its tokens, the tree is then the
only one that says what the tokens say and is grouped by precedence, and any other text ends in an
error about the text itself.
-/
namespace CExpr
open Text

/-- Errors that a text makes, as against the refusal of a numeral for its length. -/
def ReadError.IsSyntax : ReadError → Prop
  | .tooManyDigits _ => False
  | _ => True

namespace Reader

variable {allowed : Option (List String)}

theorem step_error_isSyntax {state : State} {token : Token} {e : ReadError}
    (short : token.cls = .integer → token.text.length ≤ maxDigits)
    (failed : step allowed state token = .error e) : e.IsSyntax := by
  cases state with
  | expectsOperand frame stack =>
      cases cls : token.cls with
      | integer => simp [step, cls, readDigits, short cls] at failed
      | double | leftParen => simp [step, cls] at failed
      | identifier =>
          by_cases listed : allowed.all (·.contains (String.ofList token.text)) = true
          · simp only [step, cls, listed, ↓reduceIte] at failed
            cases failed
          · simp only [step, cls, listed] at failed
            cases failed
            trivial
      -- A closing parenthesis is looked up among the signs just as an operator is.
      | operator | rightParen =>
          cases found : UnOp.ofToken? token.text with
          | some op => simp [step, cls, found] at failed
          | none =>
              simp only [step, cls, found, Except.error.injEq] at failed
              subst failed
              trivial
  | expectsOperator tree stack =>
      cases found : BinOp.ofToken? token.text with
      | some op => simp [step, found] at failed
      | none =>
          cases stack <;> cases cls : token.cls <;> simp only [step, found, cls] at failed <;>
            cases failed <;> trivial

theorem run_error_isSyntax {tokens : List Token} {state : State} {e : ReadError}
    (short : ∀ token ∈ tokens, token.cls = .integer → token.text.length ≤ maxDigits)
    (failed : tokens.foldlM (step allowed) state = .error e) : e.IsSyntax := by
  induction tokens generalizing state with
  | nil => cases failed
  | cons token rest ih =>
      rw [List.foldlM_cons] at failed
      rcases bind_eq_error.mp failed with first | ⟨next, _, later⟩
      · exact step_error_isSyntax (short token (by simp)) first
      · exact ih (fun other member => short other (List.mem_cons_of_mem _ member)) later

theorem finish_error_isSyntax {endPosition : Nat} {final : State} {e : ReadError}
    (failed : finish endPosition final = .error e) : e.IsSyntax := by
  rcases final with ⟨frame, stack⟩ | ⟨found, _ | ⟨frame, stack⟩⟩ <;> cases failed <;> trivial

theorem readTokens_error_isSyntax {tokens : List Token} {endPosition : Nat} {e : ReadError}
    (short : ∀ token ∈ tokens, token.cls = .integer → token.text.length ≤ maxDigits)
    (failed : readTokens allowed tokens endPosition = .error e) : e.IsSyntax := by
  rcases bind_eq_error.mp failed with run | ⟨final, _, ended⟩
  · exact run_error_isSyntax short run
  · exact finish_error_isSyntax ended

end Reader

theorem read_of_tokenize {text : List Char} {tokens : List Token} (cut : tokenize text = .ok tokens)
    (allowed : Option (List String)) :
    Expr.read text allowed = Reader.readTokens allowed tokens text.length := by
  rw [Expr.read, cut]

theorem readable_of_derives {allowed : Option (List String)} {text : List Char}
    {tokens : List Token} (cut : tokenize text = .ok tokens)
    (short : ∀ token ∈ tokens, token.cls = .integer → token.text.length ≤ maxDigits)
    (derived : Derives allowed .expression tokens) :
    ∀ token ∈ tokens, token.Readable allowed :=
  fun token member => ⟨tokensFrom_wellFormed 0 text tokens cut token member, short token member,
    allowed_of_derives derived token member⟩

/-- The whole of what reading does with a text that can be cut into tokens and has no overlong
numeral. Precedence climbing, where running past the end and looking up what is no operator would be
outcomes of their own, has the very same outcome. -/
theorem read_exact (text : List Char) (allowed : Option (List String)) (tokens : List Token)
    (cut : tokenize text = .ok tokens)
    (short : ∀ token ∈ tokens, token.cls = .integer → token.text.length ≤ maxDigits) :
    ((∃ tree, Expr.read text allowed = .ok tree) ↔ Derives allowed .expression tokens) ∧
      (∀ tree, Expr.read text allowed = .ok tree →
        tree.Reads tokens ∧ ∀ other : Expr, other.Reads tokens → other = tree) ∧
      (¬ Derives allowed .expression tokens →
        ∃ e, Expr.read text allowed = .error e ∧ e.IsSyntax) ∧
      Climbing.parse allowed text.length tokens =
        (Expr.read text allowed).mapError Climbing.Fault.reported := by
  have shapes := tokensFrom_wellFormed 0 text tokens cut
  rw [read_of_tokenize cut allowed]
  refine ⟨⟨?_, ?_⟩, ?_, ?_, Climbing.parse_eq_readTokens tokens shapes⟩
  · rintro ⟨tree, returned⟩
    exact (Reader.built_of_readTokens shapes returned).derived
  · intro derived
    obtain ⟨tree, reads, _⟩ := exists_reads_of_derives derived
    exact ⟨tree, Reader.readTokens_of_reads tree tokens text.length reads
      (readable_of_derives cut short derived)⟩
  · intro tree returned
    have built := Reader.built_of_readTokens shapes returned
    refine ⟨built.reads, fun other reads => ?_⟩
    have again := Reader.readTokens_of_reads other tokens text.length reads
      (readable_of_derives cut short built.derived)
    rw [returned] at again
    exact (Except.ok.inj again).symm
  · intro underivable
    cases outcome : Reader.readTokens allowed tokens text.length with
    | ok tree => exact absurd (Reader.built_of_readTokens shapes outcome).derived underivable
    | error e => exact ⟨e, rfl, Reader.readTokens_error_isSyntax short outcome⟩

/-- Levels mixed both ways, a sign and parentheses: `a - b * -(2)` has one tree. -/
theorem read_exact_mixed_levels :
    let tokens : List Token :=
      [⟨.identifier, ['a'], 0⟩, ⟨.operator, ['-'], 2⟩, ⟨.identifier, ['b'], 4⟩,
        ⟨.operator, ['*'], 6⟩, ⟨.operator, ['-'], 8⟩, ⟨.leftParen, ['('], 9⟩,
        ⟨.integer, ['2'], 10⟩, ⟨.rightParen, [')'], 11⟩]
    tokenize "a - b * -(2)".toList = .ok tokens ∧
      (∀ token ∈ tokens, token.cls = .integer → token.text.length ≤ maxDigits) ∧
      ∃ tree, Expr.read "a - b * -(2)".toList (some ["a", "b"]) = .ok tree ∧
        tree.Reads tokens ∧ ∀ other : Expr, other.Reads tokens → other = tree := by
  intro tokens
  have cut : tokenize "a - b * -(2)".toList = .ok tokens :=
    ok_of_toOption (by decide +kernel)
  have short : ∀ token ∈ tokens, token.cls = .integer → token.text.length ≤ maxDigits := by decide
  have names : ∀ name ∈ ["a", "b"], ∀ names ∈ some ["a", "b"], name ∈ names := by decide
  have difference : Derives (some ["a", "b"]) .expression
      [⟨.identifier, ['a'], 0⟩, ⟨.operator, ['-'], 2⟩, ⟨.identifier, ['b'], 4⟩] :=
    @Derives.chain _ [_] [_] _ .minus
      (.operand (.primary (.identifier rfl (names _ (by decide))))) rfl rfl
      (.primary (.identifier rfl (names _ (by decide))))
  have factor : Derives (some ["a", "b"]) .operand
      [⟨.operator, ['-'], 8⟩, ⟨.leftParen, ['('], 9⟩, ⟨.integer, ['2'], 10⟩,
        ⟨.rightParen, [')'], 11⟩] :=
    @Derives.sign _ _ .neg _ rfl rfl
      (.primary (@Derives.parens _ _ _ [_] rfl (.operand (.primary (.integer rfl))) rfl))
  have derived : Derives (some ["a", "b"]) .expression tokens :=
    @Derives.chain _ [_, _, _] [_, _, _, _] _ .mult difference rfl rfl factor
  have exact := read_exact "a - b * -(2)".toList (some ["a", "b"]) tokens cut short
  obtain ⟨tree, returned⟩ := exact.1.mpr derived
  exact ⟨cut, short, tree, returned, exact.2.1 tree returned⟩

end CExpr
