import CExpr.Proofs.Reader.RoundTrip
import CExpr.Proofs.Reader.Stability

/-!
What came out of reading, printed and read again. The leaves of such a tree are what literals and
names of a text stand for, and the shortest numeral of a finite double reads back as this double.
But a literal can be too large for a double: what it stands for is infinity, and this is written
with the letters of a name.
-/
namespace CExpr
open Text

namespace Reader

variable {allowed : Option (List String)} {tokens : List Token}

theorem short_of_run {state final : State} (shapes : ∀ token ∈ tokens, token.WellFormed)
    (run : tokens.foldlM (step allowed) state = .ok final) :
    ∀ token ∈ tokens, token.cls = .integer → token.text.length ≤ maxDigits := by
  induction tokens generalizing state with
  | nil => simp
  | cons token rest ih =>
      obtain ⟨shape, shapes⟩ := List.forall_mem_cons.mp shapes
      obtain ⟨next, first, later⟩ := run_cons_eq_ok.mp run
      refine List.forall_mem_cons.mpr ⟨fun numeral => ?_, ih shapes later⟩
      cases relation_of_step shape first with
      | leaf leaf =>
          cases leaf with
          | integer _ short => exact short
          | double other | identifier other _ => cases numeral.symm.trans other
      | sign other _ | opening other | operator other _ | closing other =>
          cases numeral.symm.trans other

theorem readable_of_readTokens {endPosition : Nat} {t : Expr}
    (shapes : ∀ token ∈ tokens, token.WellFormed)
    (returned : readTokens allowed tokens endPosition = .ok t) :
    ∀ token ∈ tokens, token.Readable allowed := fun token member =>
  ⟨shapes token member, short_of_run shapes (readTokens_eq_ok.mp returned) token member,
    allowed_of_derives (built_of_readTokens shapes returned).derived token member⟩

end Reader

namespace Expr

variable {allowed : Option (List String)} {tokens : List Token} {t : Expr}

/-- What every token of a tree makes of a leaf that it can be, every leaf of the tree is. -/
theorem everyLeaf_of_lexemes {test : Expr → Prop} (means : tokens.map Token.lexeme = t.lexemes)
    (made : ∀ token ∈ tokens, ∀ leaf : Expr, leaf.children = [] →
      [token.lexeme] = leaf.lexemes → test leaf) : t.EveryLeaf test := by
  induction t generalizing tokens with
  | integer value | double value | var name =>
      obtain ⟨token, rfl, same⟩ := List.map_eq_singleton_iff.mp means
      exact made token (List.mem_singleton_self _) _ rfl (by rw [same]; rfl)
  | unary op operand ih =>
      obtain ⟨sign, rest, rfl, _, later⟩ := List.map_eq_cons_iff.mp means
      exact ih later fun token member => made token (List.mem_cons_of_mem _ member)
  | binary op lhs rhs left right =>
      obtain ⟨before, behind, rfl, first, others⟩ := List.map_eq_append_iff.mp means
      obtain ⟨operator, rest, rfl, _, last⟩ := List.map_eq_cons_iff.mp others
      exact ⟨left first fun token member => made token (List.mem_append_left _ member),
        right last fun token member =>
          made token (List.mem_append_right _ (List.mem_cons_of_mem _ member))⟩
  | parens inner ih =>
      obtain ⟨opening, others, rfl, _, behind⟩ := List.map_eq_cons_iff.mp means
      obtain ⟨body, ending, rfl, middle, _⟩ := List.map_eq_append_iff.mp behind
      exact ih middle fun token member =>
        made token (List.mem_cons_of_mem _ (List.mem_append_left _ member))

theorem fits_of_readable {token : Token} {leaf : Expr} (readable : token.Readable allowed)
    (single : leaf.children = []) (means : [token.lexeme] = leaf.lexemes) :
    leaf.IsShort ∧ leaf.IsListed allowed := by
  cases Reader.leaf_of_lexeme readable single means with
  | integer cls short =>
      obtain ⟨first, rest, digits, _⟩ : ∃ first rest, token.text = first :: rest ∧
          isDigit first = true := by simpa [Token.WellFormed, cls] using readable.wellFormed
      have nonempty : token.text ≠ [] := digits ▸ List.cons_ne_nil _ _
      exact ⟨Nat.le_trans (length_digitsOf_ofDigits nonempty) short, trivial⟩
  | double cls => exact ⟨trivial, trivial⟩
  | identifier cls listed => exact ⟨trivial, listed⟩

/-- Among the tokens only a literal that is too large for a double stands for something that is not
written as one token. -/
theorem plain_of_readable {token : Token} {leaf : Expr} (readable : token.Readable allowed)
    (finite : token.cls = .double → (Double.ofNumeral false token.text).isFinite = true)
    (single : leaf.children = []) (means : [token.lexeme] = leaf.lexemes) : leaf.IsPlain := by
  cases Reader.leaf_of_lexeme readable single means with
  | integer cls _ => exact Int.natCast_nonneg _
  | double cls =>
      rcases Double.ofNumeral_hasSign false token.text with number | infinite
      · exact number
      · exact absurd (finite cls) (by rw [infinite]; decide)
  | identifier cls _ =>
      have shape := readable.wellFormed
      simp only [Token.WellFormed, cls] at shape
      show isIdentifier (String.ofList token.text).toList = true
      rw [String.toList_ofList]
      exact shape

theorem finite_of_plain {value : Double} (plain : t.EveryLeaf IsPlain)
    (member : .double value ∈ t.lexemes) : value.isFinite = true := by
  induction t with
  | integer other | var name => simp [lexemes] at member
  | double other =>
      obtain ⟨units, fits, rfl⟩ := plain
      cases List.mem_singleton.mp member
      rfl
  | unary op operand ih => exact ih plain (by simpa [lexemes] using member)
  | binary op lhs rhs left right =>
      rcases List.mem_append.mp member with first | later
      · exact left plain.1 first
      · exact right plain.2 (by simpa using later)
  | parens inner ih => exact ih plain (by simpa [lexemes] using member)

theorem plain_of_read_text {again : Expr} (names : t.EveryLeaf HasReadableName)
    (returned : Expr.read t.text.toList none = .ok again) (same : again.same t = true) :
    t.EveryLeaf IsPlain := by
  obtain ⟨tokens, cut, pieces⟩ := tokenize_chars names
  rw [text, String.toList_ofList, read_of_tokenize cut] at returned
  have shapes := tokensFrom_wellFormed 0 t.chars tokens cut
  have reads := (Reader.built_of_readTokens shapes returned).reads
  have legible : ∀ lexeme ∈ again.lexemes, lexeme.Legible := by
    intro lexeme member
    rw [← reads.lexemes] at member
    obtain ⟨token, old, rfl⟩ := List.mem_map.mp member
    exact Token.lexeme_legible (shapes token old)
  have cut : t.pieces.map Piece.lexeme = again.lexemes := by
    rw [← pieces, List.map_map, ← reads.lexemes]
    rfl
  exact (plain_of_same same legible (congrArg (· ++ []) cut)).1

/-- A tree that came out of reading comes back out of its own text just if no literal of the text it
was read from is too large for a double. It is then the very same tree, with and without the list of
names. -/
theorem read_text_of_read_iff (text : List Char) (allowed : Option (List String))
    (tokens : List Token) (t : Expr) (cut : tokenize text = .ok tokens)
    (returned : Expr.read text allowed = .ok t) :
    ((∃ again, Expr.read t.text.toList none = .ok again ∧ again.same t = true) ↔
      ∀ token ∈ tokens, token.cls = .double →
        (Double.ofNumeral false token.text).isFinite = true) ∧
    ((∀ token ∈ tokens, token.cls = .double →
        (Double.ofNumeral false token.text).isFinite = true) →
      Expr.read t.text.toList none = .ok t ∧ Expr.read t.text.toList allowed = .ok t) := by
  rw [read_of_tokenize cut] at returned
  have shapes := tokensFrom_wellFormed 0 text tokens cut
  have readable := Reader.readable_of_readTokens shapes returned
  have reads := (Reader.built_of_readTokens shapes returned).reads
  have fits : t.EveryLeaf fun leaf => leaf.IsShort ∧ leaf.IsListed allowed :=
    everyLeaf_of_lexemes reads.lexemes fun token member leaf single means =>
      fits_of_readable (readable token member) single means
  have plain (finite : ∀ token ∈ tokens, token.cls = .double →
      (Double.ofNumeral false token.text).isFinite = true) : t.EveryLeaf IsPlain :=
    everyLeaf_of_lexemes reads.lexemes fun token member leaf single means =>
      plain_of_readable (readable token member) (finite token member) single means
  have short : t.EveryLeaf IsShort := fits.imp fun _ _ both => both.1
  have back (finite : ∀ token ∈ tokens, token.cls = .double →
      (Double.ofNumeral false token.text).isFinite = true) :
      Expr.read t.text.toList none = .ok t ∧ Expr.read t.text.toList allowed = .ok t := by
    have free : t.EveryLeaf (IsListed none) := short.imp fun leaf _ _ => leaf.isListed_none
    have listed : t.EveryLeaf (IsListed allowed) := fits.imp fun _ _ both => both.2
    rw [Expr.text, String.toList_ofList]
    exact ⟨read_chars reads.grouped (plain finite) short free,
      read_chars reads.grouped (plain finite) short listed⟩
  refine ⟨⟨?_, fun finite => ⟨t, (back finite).1, same_self (plain finite)⟩⟩, back⟩
  rintro ⟨again, returnedAgain, same⟩ token member cls
  have names := reads.readableName shapes
  have member : token.lexeme ∈ t.lexemes := reads.lexemes ▸ List.mem_map_of_mem member
  have lexeme : token.lexeme = .double (Double.ofNumeral false token.text) := by
    rw [Token.lexeme, cls]
  exact finite_of_plain (plain_of_read_text names returnedAgain same) (lexeme ▸ member)

/-- Odd spacing, a sign, and a literal that is written out at greater length than it need be. -/
theorem read_text_of_read_iff_scaled :
    let text := "-7*( x<<  2.50e1 )".toList
    let t := binary .mult (unary .neg (integer 7)) (parens (binary .shl (var "x")
      (double (.ofNumeral false "2.50e1".toList))))
    Expr.read text (some ["x"]) = .ok t ∧ Expr.read t.text.toList (some ["x"]) = .ok t := by
  intro text t
  let tokens : List Token :=
    [⟨.operator, ['-'], 0⟩, ⟨.integer, ['7'], 1⟩, ⟨.operator, ['*'], 2⟩, ⟨.leftParen, ['('], 3⟩,
      ⟨.identifier, ['x'], 5⟩, ⟨.operator, ['<', '<'], 6⟩, ⟨.double, "2.50e1".toList, 10⟩,
      ⟨.rightParen, [')'], 17⟩]
  have cut : tokenize text = .ok tokens := ok_of_toOption (by decide +kernel)
  have returned : Expr.read text (some ["x"]) = .ok t := by
    rw [read_of_tokenize cut]
    rfl
  have finite : ∀ token ∈ tokens, token.cls = .double →
      (Double.ofNumeral false token.text).isFinite = true := by decide +kernel
  exact ⟨returned, ((read_text_of_read_iff text (some ["x"]) tokens t cut returned).2 finite).2⟩

/-- A literal that is too large for a double is read as infinity. This is printed as `inf`, and
`inf` is read as a variable. -/
theorem not_forall_read_text_of_read : ¬ ∀ (text : List Char) (allowed : Option (List String))
    (t : Expr), Expr.read text allowed = .ok t →
      ∃ again, Expr.read t.text.toList none = .ok again ∧ again.same t = true := by
  intro claim
  have cut : tokenize "1e999".toList = .ok [⟨.double, "1e999".toList, 0⟩] :=
    ok_of_toOption (by decide +kernel)
  have value : Double.ofNumeral false "1e999".toList = .infinite false := by decide +kernel
  have returned : Expr.read "1e999".toList none = .ok (double (.infinite false)) := by
    rw [read_of_tokenize cut, ← value]
    rfl
  obtain ⟨again, read, same⟩ := claim _ _ _ returned
  have cutAgain : tokenize "inf".toList = .ok [⟨.identifier, "inf".toList, 0⟩] :=
    ok_of_toOption (by decide +kernel)
  have variableRead : Expr.read "inf".toList none = .ok (var "inf") := by
    rw [read_of_tokenize cutAgain]
    rfl
  have printed : (double (.infinite false)).text.toList = "inf".toList := by decide +kernel
  rw [printed, variableRead] at read
  cases read
  cases same

end Expr
end CExpr
