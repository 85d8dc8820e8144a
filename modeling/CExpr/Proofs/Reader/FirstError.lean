import CExpr.Proofs.Reader.Exactness
import CExpr.Proofs.Token.Scan

/-!
Errors are reported at the first impossible place. What the reader makes of a token depends on its
piece only, and from every state the reader can be brought to an end: by an operand, if one is due,
and the parentheses that close what is open. So the tokens before an error begin some accepted text,
and with the token of the error none begins.
-/
namespace CExpr
open Text

/-- The marks that reading goes over: the pieces of the tokens, and nothing in place of the end. -/
def marks (tokens : List Token) : List (Option Piece) := tokens.map (some ·.piece) ++ [none]

/-- Some accepted text has marks that begin like this. -/
def Viable (allowed : Option (List String)) (start : List (Option Piece)) : Prop :=
  ∃ text tokens tree, tokenize text = .ok tokens ∧ Expr.read text allowed = .ok tree ∧
    start <+: marks tokens

def ReadError.Names (e : ReadError) (endPosition : Nat) : Option Token → Prop
  | some token => e = .unexpectedToken token.text token.position ∨
      e = .unknownIdentifier token.text token.position ∨ e = .unclosed token.position token.text
  | none => e = .unexpectedEnd ∨ e = .unclosed endPosition []

namespace Reader

variable {allowed : Option (List String)} {state : State} {tokens : List Token} {e : ReadError}

/-! Reading goes by the pieces. -/
section Pieces

theorem step_toOption_of_piece {token other : Token} (same : token.piece = other.piece)
    (state : State) :
    (step allowed state token).toOption = (step allowed state other).toOption := by
  obtain ⟨cls, text, position⟩ := token
  obtain ⟨_, _, elsewhere⟩ := other
  cases same
  cases state with
  | expectsOperand frame stack =>
      cases cls with
      | integer | double | leftParen => rfl
      | identifier =>
          simp only [step]
          split <;> rfl
      | operator | rightParen =>
          simp only [step]
          cases UnOp.ofToken? text <;> rfl
  | expectsOperator tree stack =>
      cases found : BinOp.ofToken? text with
      | some op => simp only [step, found]
      | none => cases stack <;> cases cls <;> simp only [step, found] <;> rfl

theorem toOption_bind {ε α β : Type} (x : Except ε α) (f : α → Except ε β) :
    (x >>= f).toOption = x.toOption.bind fun a => (f a).toOption := by
  cases x <;> rfl

theorem run_toOption_of_pieces {tokens others : List Token}
    (same : tokens.map Token.piece = others.map Token.piece) (state : State) :
    (tokens.foldlM (step allowed) state).toOption =
      (others.foldlM (step allowed) state).toOption := by
  induction tokens generalizing others state with
  | nil => rw [List.map_eq_nil_iff.mp same.symm]
  | cons token rest ih =>
      obtain ⟨other, later, rfl, first, behind⟩ := List.map_eq_cons_iff.mp same.symm
      rw [List.foldlM_cons, List.foldlM_cons, toOption_bind, toOption_bind,
        step_toOption_of_piece first.symm]
      congr 1
      funext next
      exact ih behind.symm next

theorem toOption_eq_some {ε α : Type} {x : Except ε α} {a : α} :
    x.toOption = some a ↔ x = .ok a := by
  cases x <;> simp [Except.toOption]

theorem run_of_pieces {tokens others : List Token} {final : State}
    (same : tokens.map Token.piece = others.map Token.piece)
    (run : tokens.foldlM (step allowed) state = .ok final) :
    others.foldlM (step allowed) state = .ok final := by
  rw [← toOption_eq_some] at run ⊢
  rw [← run_toOption_of_pieces same, run]

end Pieces

/-! From every state on, reading can come to an end. -/
section Completion

def closing : Piece := ⟨.rightParen, [')']⟩

def completion : State → List Piece
  | .expectsOperand _ stack => ⟨.integer, ['0']⟩ :: stack.map fun _ => closing
  | .expectsOperator _ stack => stack.map fun _ => closing

theorem completion_belongs (state : State) :
    ∀ piece ∈ completion state, Token.Belongs piece.cls piece.text := by
  have closes (stack : List Frame) : ∀ piece ∈ stack.map fun _ => closing,
      Token.Belongs piece.cls piece.text := by
    intro piece member
    obtain ⟨_, _, rfl⟩ := List.mem_map.mp member
    exact .rightParen
  cases state with
  | expectsOperand frame stack =>
      have digits : ∀ c ∈ ['0'], isDigit c = true := List.forall_mem_singleton.mpr (by decide)
      exact List.forall_mem_cons.mpr ⟨.integer (by decide) digits, closes stack⟩
  | expectsOperator tree stack => exact closes stack

theorem run_closing (tree : Expr) (stack : List Frame)
    (pieces : tokens.map Token.piece = stack.map fun _ => closing) :
    ∃ whole, tokens.foldlM (step allowed) (.expectsOperator tree stack) =
      .ok (.expectsOperator whole []) := by
  induction stack generalizing tokens tree with
  | nil =>
      rw [List.map_eq_nil_iff.mp pieces]
      exact ⟨tree, rfl⟩
  | cons frame stack ih =>
      obtain ⟨⟨_, _, position⟩, rest, rfl, first, later⟩ := List.map_eq_cons_iff.mp pieces
      cases first
      obtain ⟨whole, run⟩ := ih (frame.complete (.parens tree)) later
      have shape : Token.WellFormed ⟨.rightParen, [')'], position⟩ := rfl
      exact ⟨whole, (run_cons rest (step_of_relation shape (.closing rfl))).trans run⟩

theorem run_completion (state : State) (pieces : tokens.map Token.piece = completion state) :
    ∃ tree, tokens.foldlM (step allowed) state = .ok (.expectsOperator tree []) := by
  cases state with
  | expectsOperand frame stack =>
      obtain ⟨⟨_, _, position⟩, rest, rfl, first, later⟩ := List.map_eq_cons_iff.mp pieces
      cases first
      obtain ⟨whole, run⟩ := run_closing (frame.complete (.integer (ofDigits ['0']))) stack later
      have shape : Token.WellFormed ⟨.integer, ['0'], position⟩ := ⟨'0', [], rfl, by decide⟩
      have short : ['0'].length ≤ maxDigits := by decide
      exact ⟨whole, (run_cons rest (step_of_relation shape (.leaf (.integer rfl short)))).trans run⟩
  | expectsOperator tree stack => exact run_closing tree stack pieces

end Completion

/-! Which beginnings are viable. -/
section Viability

theorem prefix_marks_iff {tokens others : List Token} :
    tokens.map (some ·.piece) <+: marks others ↔
      tokens.map Token.piece <+: others.map Token.piece := by
  induction tokens generalizing others with
  | nil => simp
  | cons token rest ih =>
      cases others with
      | nil => simp [marks]
      | cons other behind =>
          have later : rest.map (some ·.piece) <+: marks behind ↔
              rest.map Token.piece <+: behind.map Token.piece := ih
          rw [marks] at later
          simp [marks, List.cons_prefix_cons, later]

theorem pieces_of_marks {tokens others : List Token} (front : marks tokens <+: marks others) :
    tokens.map Token.piece = others.map Token.piece := by
  induction tokens generalizing others with
  | nil =>
      cases others with
      | nil => rfl
      | cons other behind => simp [marks] at front
  | cons token rest ih =>
      cases others with
      | nil => simp [marks] at front
      | cons other behind =>
          obtain ⟨same, later⟩ := List.cons_prefix_cons.mp front
          rw [List.map_cons, List.map_cons, ih later, Option.some.inj same]

theorem take_marks {count : Nat} (within : count ≤ tokens.length) :
    (marks tokens).take count = (tokens.take count).map (some ·.piece) := by
  rw [marks, List.take_append_of_le_length (by simpa using within), List.map_take]

theorem covers_of_tokenize {text : List Char} (cut : tokenize text = .ok tokens) :
    Covers text 0 text.length tokens := by
  obtain ⟨found, outcome, scan⟩ := Scan.exists_scan 0 text
  have same := scan.tokensFrom_eq.symm.trans cut
  have ends : Scan.Ends text outcome := scan.ends rfl (Nat.zero_le _)
  cases outcome with
  | error refused => cases same
  | ok place =>
      cases same
      cases ends
      exact scan.covers rfl

theorem viable_of_run (legal : ∀ token ∈ tokens, Token.Belongs token.cls token.text)
    (run : tokens.foldlM (step allowed) .start = .ok state) :
    Viable allowed (tokens.map (some ·.piece)) := by
  have whole : ∀ piece ∈ tokens.map Token.piece ++ completion state,
      Token.Belongs piece.cls piece.text := by
    intro piece member
    rcases List.mem_append.mp member with old | new
    · obtain ⟨token, listed, rfl⟩ := List.mem_map.mp old
      exact legal token listed
    · exact completion_belongs state piece new
  obtain ⟨found, cut, pieces⟩ := (spells_spaced whole).tokenize
  obtain ⟨before, after, rfl, first, last⟩ := List.map_eq_append_iff.mp pieces
  obtain ⟨tree, ended⟩ :
      ∃ tree, after.foldlM (step allowed) state = .ok (.expectsOperator tree []) :=
    run_completion state last
  refine ⟨_, _, tree, cut, ?_, ?_⟩
  · rw [read_of_tokenize cut, readTokens_eq_ok, run_append after (run_of_pieces first.symm run)]
    exact ended
  · rw [prefix_marks_iff, List.map_append, first]
    exact List.prefix_append _ _

theorem run_of_viable (viable : Viable allowed (tokens.map (some ·.piece))) :
    ∃ state, tokens.foldlM (step allowed) .start = .ok state := by
  obtain ⟨text, others, tree, cut, accepted, front⟩ := viable
  obtain ⟨behind, whole⟩ := prefix_marks_iff.mp front
  obtain ⟨before, after, rfl, first, _⟩ := List.map_eq_append_iff.mp whole.symm
  rw [read_of_tokenize cut, readTokens_eq_ok, List.foldlM_append] at accepted
  obtain ⟨middle, run, _⟩ := bind_eq_ok.mp accepted
  exact ⟨middle, run_of_pieces first run⟩

theorem readTokens_of_viable (viable : Viable allowed (marks tokens)) (endPosition : Nat) :
    ∃ tree, readTokens allowed tokens endPosition = .ok tree := by
  obtain ⟨text, others, tree, cut, accepted, front⟩ := viable
  rw [read_of_tokenize cut, readTokens_eq_ok] at accepted
  exact ⟨tree, readTokens_eq_ok.mpr (run_of_pieces (pieces_of_marks front).symm accepted)⟩

theorem not_viable_of_step_error {token : Token}
    (run : tokens.foldlM (step allowed) .start = .ok state)
    (failed : step allowed state token = .error e) :
    ¬ Viable allowed ((tokens ++ [token]).map (some ·.piece)) := by
  intro viable
  obtain ⟨next, whole⟩ := run_of_viable viable
  rw [run_append [token] run, List.foldlM_cons, failed] at whole
  cases whole

theorem not_viable_of_finish_error {endPosition : Nat}
    (run : tokens.foldlM (step allowed) .start = .ok state)
    (failed : finish endPosition state = .error e) : ¬ Viable allowed (marks tokens) := by
  intro viable
  obtain ⟨tree, accepted⟩ := readTokens_of_viable viable endPosition
  rw [readTokens, run] at accepted
  cases failed.symm.trans accepted

end Viability

/-! What an error names. -/
section Named

theorem step_error_names {token : Token} (endPosition : Nat)
    (short : token.cls = .integer → token.text.length ≤ maxDigits)
    (failed : step allowed state token = .error e) : e.Names endPosition (some token) := by
  cases state with
  | expectsOperand frame stack =>
      cases cls : token.cls with
      | integer => simp [step, cls, readDigits, short cls] at failed
      | double | leftParen => simp [step, cls] at failed
      | identifier =>
          by_cases listed : allowed.all (·.contains (String.ofList token.text)) = true
          · simp only [step, cls, listed, ↓reduceIte] at failed
            cases failed
          · simp only [step, cls, listed] at failed
            cases failed
            exact .inr (.inl rfl)
      | operator | rightParen =>
          cases found : UnOp.ofToken? token.text with
          | some op => simp [step, cls, found] at failed
          | none =>
              simp only [step, cls, found, Except.error.injEq] at failed
              exact .inl failed.symm
  | expectsOperator tree stack =>
      cases found : BinOp.ofToken? token.text with
      | some op => simp [step, found] at failed
      | none =>
          cases stack with
          | nil =>
              cases cls : token.cls <;> simp only [step, found, cls] at failed <;>
                exact .inl (Except.error.inj failed).symm
          | cons frame stack =>
              cases cls : token.cls with
              | rightParen => simp [step, found, cls] at failed
              | integer | double | identifier | operator | leftParen =>
                  simp only [step, found, cls] at failed
                  exact .inr (.inr (Except.error.inj failed).symm)

theorem finish_error_names {endPosition : Nat} (failed : finish endPosition state = .error e) :
    e.Names endPosition none := by
  rcases state with ⟨frame, stack⟩ | ⟨tree, _ | ⟨frame, stack⟩⟩ <;> cases failed
  · exact .inl rfl
  · exact .inr rfl

theorem exists_step_error (failed : tokens.foldlM (step allowed) state = .error e) :
    ∃ before token after last, tokens = before ++ token :: after ∧
      before.foldlM (step allowed) state = .ok last ∧ step allowed last token = .error e := by
  induction tokens generalizing state with
  | nil => cases failed
  | cons token rest ih =>
      rw [List.foldlM_cons] at failed
      rcases bind_eq_error.mp failed with here | ⟨next, taken, later⟩
      · exact ⟨[], token, rest, state, rfl, rfl, here⟩
      · obtain ⟨before, other, after, last, rfl, run, there⟩ := ih later
        exact ⟨token :: before, other, after, last, rfl, (run_cons before taken).trans run, there⟩

end Named

end Reader

namespace ReadError.Names

variable {e : ReadError} {token other : Token} {endPosition : Nat}

theorem position_eq (named : e.Names endPosition (some token))
    (again : e.Names endPosition (some other)) : token.position = other.position := by
  rcases named with rfl | rfl | rfl <;> simp only [ReadError.Names, reduceCtorEq, or_false,
    false_or, unexpectedToken.injEq, unknownIdentifier.injEq, unclosed.injEq] at again
  · exact again.2
  · exact again.2
  · exact again.1

theorem not_end (named : e.Names endPosition (some token)) (nonempty : token.text ≠ []) :
    ¬ e.Names endPosition none := by
  rintro (rfl | rfl)
  · rcases named with same | same | same <;> cases same
  · rcases named with same | same | same
    · cases same
    · cases same
    · exact nonempty (unclosed.inj same).2.symm

theorem index_eq {text : List Char} {tokens : List Token} {start stop i j : Nat}
    (covers : Covers text start stop tokens) (inside : i ≤ tokens.length)
    (within : j ≤ tokens.length) (named : e.Names endPosition tokens[i]?)
    (again : e.Names endPosition tokens[j]?) : i = j := by
  have nonempty : ∀ token ∈ tokens, token.text ≠ [] :=
    fun token member => (covers.belongs token member).ne_nil
  rcases Nat.lt_or_eq_of_le inside with first | rfl <;>
    rcases Nat.lt_or_eq_of_le within with second | rfl
  · rw [List.getElem?_eq_getElem first] at named
    rw [List.getElem?_eq_getElem second] at again
    have same := named.position_eq again
    have ordered := List.pairwise_iff_getElem.mp covers.ordered
    rcases Nat.lt_trichotomy i j with below | equal | above
    · exact absurd same (Nat.ne_of_lt (ordered i j first second below).1)
    · exact equal
    · exact absurd same (Nat.ne_of_gt (ordered j i second first above).1)
  · rw [List.getElem?_eq_getElem first] at named
    rw [List.getElem?_eq_none (Nat.le_refl _)] at again
    exact absurd again (named.not_end (nonempty _ (List.getElem_mem first)))
  · rw [List.getElem?_eq_none (Nat.le_refl _)] at named
    rw [List.getElem?_eq_getElem second] at again
    exact absurd named (again.not_end (nonempty _ (List.getElem_mem second)))
  · rfl

end ReadError.Names

/-- Errors are reported at the first impossible token. The error names one mark, a token or the end:
the marks before it begin some accepted text, and no accepted text begins with these and the mark.
-/
theorem read_error_first (text : List Char) (allowed : Option (List String)) (tokens : List Token)
    (e : ReadError) (cut : tokenize text = .ok tokens)
    (short : ∀ token ∈ tokens, token.cls = .integer → token.text.length ≤ maxDigits)
    (failed : Expr.read text allowed = .error e) :
    ∃ j ≤ tokens.length, e.Names text.length tokens[j]? ∧
      (∀ i ≤ tokens.length, e.Names text.length tokens[i]? → i = j) ∧
      Viable allowed ((marks tokens).take j) ∧ ¬ Viable allowed ((marks tokens).take (j + 1)) := by
  have covers := Reader.covers_of_tokenize cut
  suffices ∃ j ≤ tokens.length, e.Names text.length tokens[j]? ∧
      Viable allowed ((marks tokens).take j) ∧ ¬ Viable allowed ((marks tokens).take (j + 1)) by
    obtain ⟨j, inside, named, viable, impossible⟩ := this
    exact ⟨j, inside, named, fun i within again => again.index_eq covers within inside named,
      viable, impossible⟩
  rw [read_of_tokenize cut] at failed
  -- Either a token breaks the run off, or the run comes to its end with something still open.
  rcases bind_eq_error.mp failed with broken | ⟨final, run, ended⟩
  · obtain ⟨before, token, after, last, rfl, run, here⟩ := Reader.exists_step_error broken
    have inside : before.length + 1 ≤ (before ++ token :: after).length := by simp
    have front := Nat.le_of_succ_le inside
    refine ⟨before.length, front, ?_, ?_, ?_⟩
    · rw [List.getElem?_append_right (Nat.le_refl _), Nat.sub_self]
      exact Reader.step_error_names text.length (short token (by simp)) here
    · rw [Reader.take_marks front, List.take_left]
      exact Reader.viable_of_run
        (fun token member => covers.belongs token (List.mem_append_left _ member)) run
    · rw [Reader.take_marks inside, List.take_length_add_append, List.take_succ_cons,
        List.take_zero]
      exact Reader.not_viable_of_step_error run here
  · have whole : (marks tokens).take (tokens.length + 1) = marks tokens :=
      List.take_of_length_le (by simp [marks])
    refine ⟨tokens.length, Nat.le_refl _, ?_, ?_, ?_⟩
    · rw [List.getElem?_eq_none (Nat.le_refl _)]
      exact Reader.finish_error_names ended
    · rw [Reader.take_marks (Nat.le_refl _), List.take_length]
      exact Reader.viable_of_run covers.belongs run
    · rw [whole]
      exact Reader.not_viable_of_finish_error run ended

/-- Behind `(x - 2` an operator or the closing parenthesis can come, but no `3`. -/
theorem read_error_first_unclosed :
    let tokens : List Token :=
      [⟨.leftParen, ['('], 0⟩, ⟨.identifier, ['x'], 1⟩, ⟨.operator, ['-'], 3⟩, ⟨.integer, ['2'], 5⟩,
        ⟨.integer, ['3'], 7⟩, ⟨.rightParen, [')'], 8⟩]
    tokenize "(x - 2 3)".toList = .ok tokens ∧
      Expr.read "(x - 2 3)".toList (some ["x"]) = .error (.unclosed 7 ['3']) ∧
      Viable (some ["x"]) ((marks tokens).take 4) ∧
      ¬ Viable (some ["x"]) ((marks tokens).take 5) := by
  intro tokens
  have cut : tokenize "(x - 2 3)".toList = .ok tokens := ok_of_toOption (by decide +kernel)
  have short : ∀ token ∈ tokens, token.cls = .integer → token.text.length ≤ maxDigits := by decide
  have failed : Expr.read "(x - 2 3)".toList (some ["x"]) = .error (.unclosed 7 ['3']) := by
    rw [read_of_tokenize cut]
    rfl
  obtain ⟨j, _, _, unique, viable, impossible⟩ :=
    read_error_first "(x - 2 3)".toList (some ["x"]) tokens (.unclosed 7 ['3']) cut short failed
  cases unique 4 (by decide) (.inr (.inr rfl))
  exact ⟨cut, failed, viable, impossible⟩

end CExpr
