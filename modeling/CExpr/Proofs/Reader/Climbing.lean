import CExpr.Proofs.Reader.Acceptance

/-!
Reading by precedence climbing. A cursor runs over the tokens and one mark behind the last of them;
operands of an operator are read one level tighter than the operator, and a loop takes operators as
long as they are no looser than the level. A request for a mark beyond the last one and a look-up of
a text that writes no operator are outcomes of their own here. Climbing agrees with reading token by
token in every outcome, so neither of the two can occur.
-/
namespace CExpr
open Text

namespace Climbing

inductive Fault
  | reported (e : ReadError)
  /-- A mark was asked for when all had been passed. -/
  | pastEnd
  /-- An operator was looked up under a text that writes none. -/
  | unknownOperator (text : List Char)
  deriving DecidableEq

/-- The marks still to come: tokens, and nothing in place of the end. -/
abbrev Cursor := List (Option Token)

def cursor (tokens : List Token) : Cursor := tokens.map some ++ [none]

def writesBinOp (token : Token) : Bool :=
  token.cls = .operator && BinOp.all.any fun op => op.token == token.text

def writesUnOp (token : Token) : Bool :=
  token.cls = .operator && UnOp.all.any fun op => op.token == token.text

variable (allowed : Option (List String)) (endPosition : Nat)

mutual

def climb (level : Nat) (marks : Cursor) :
    Except Fault (Expr × { rest : Cursor // rest.length < marks.length }) :=
  match operand marks with
  | .error fault => .error fault
  | .ok (lhs, ⟨rest, shorter⟩) =>
    match extend level lhs rest with
    | .error fault => .error fault
    | .ok (tree, ⟨after, kept⟩) => .ok (tree, ⟨after, Nat.lt_of_le_of_lt kept shorter⟩)
termination_by (marks.length, 2)

def extend (level : Nat) (lhs : Expr) (marks : Cursor) :
    Except Fault (Expr × { rest : Cursor // rest.length ≤ marks.length }) :=
  match marks with
  | [] => .error .pastEnd
  | none :: rest => .ok (lhs, ⟨none :: rest, Nat.le_refl _⟩)
  | some token :: rest =>
    if writesBinOp token then
      match BinOp.ofToken? token.text with
      | none => .error (.unknownOperator token.text)
      | some op =>
        if level < op.precedence then .ok (lhs, ⟨some token :: rest, Nat.le_refl _⟩)
        else
          match climb (op.precedence - 1) rest with
          | .error fault => .error fault
          | .ok (rhs, ⟨after, shorter⟩) =>
            match extend level (.binary op lhs rhs) after with
            | .error fault => .error fault
            | .ok (tree, ⟨final, kept⟩) =>
              .ok (tree, ⟨final, Nat.le_succ_of_le (Nat.le_trans kept (Nat.le_of_lt shorter))⟩)
    else .ok (lhs, ⟨some token :: rest, Nat.le_refl _⟩)
termination_by (marks.length, 0)
decreasing_by
  · simp_wf
    exact .left _ _ (Nat.lt_succ_self _)
  · simp_wf
    exact .left _ _ (Nat.lt_succ_of_lt shorter)

def operand (marks : Cursor) :
    Except Fault (Expr × { rest : Cursor // rest.length < marks.length }) :=
  match marks with
  | [] => .error .pastEnd
  | none :: rest => primary (none :: rest)
  | some token :: rest =>
    if writesUnOp token then
      match UnOp.ofToken? token.text with
      | none => .error (.unknownOperator token.text)
      | some op =>
        match operand rest with
        | .error fault => .error fault
        | .ok (inner, ⟨after, shorter⟩) =>
          .ok (.unary op inner, ⟨after, Nat.lt_succ_of_lt shorter⟩)
    else primary (some token :: rest)
termination_by (marks.length, 1)
decreasing_by
  · simp_wf
    exact .right _ Nat.one_pos
  · simp_wf
    exact .left _ _ (Nat.lt_succ_self _)
  · simp_wf
    exact .right _ Nat.one_pos

def primary (marks : Cursor) :
    Except Fault (Expr × { rest : Cursor // rest.length < marks.length }) :=
  match marks with
  | [] => .error .pastEnd
  | none :: _ => .error (.reported .unexpectedEnd)
  | some token :: rest =>
    match token.cls with
    | .integer =>
      match readDigits token.text with
      | .ok value => .ok (.integer value, ⟨rest, Nat.lt_succ_self _⟩)
      | .error numeral => .error (.reported (.tooManyDigits numeral))
    | .double => .ok (.double (.ofNumeral false token.text), ⟨rest, Nat.lt_succ_self _⟩)
    | .identifier =>
      if allowed.all (·.contains (String.ofList token.text)) then
        .ok (.var (String.ofList token.text), ⟨rest, Nat.lt_succ_self _⟩)
      else .error (.reported (.unknownIdentifier token.text token.position))
    | .leftParen =>
      match climb BinOp.loosest rest with
      | .error fault => .error fault
      | .ok (_, ⟨[], _⟩) => .error .pastEnd
      | .ok (_, ⟨none :: _, _⟩) => .error (.reported (.unclosed endPosition []))
      | .ok (inner, ⟨some closing :: final, shorter⟩) =>
        if closing.cls = .rightParen then
          .ok (.parens inner, ⟨final, Nat.lt_succ_of_lt (Nat.lt_of_succ_lt shorter)⟩)
        else .error (.reported (.unclosed closing.position closing.text))
    | .operator | .rightParen =>
      .error (.reported (.unexpectedToken token.text token.position))
termination_by (marks.length, 0)
decreasing_by
  · simp_wf
    exact .left _ _ (Nat.lt_succ_self _)

end

def parse (tokens : List Token) : Except Fault Expr :=
  match climb allowed endPosition BinOp.loosest (cursor tokens) with
  | .error fault => .error fault
  | .ok (_, ⟨[], _⟩) => .error .pastEnd
  | .ok (tree, ⟨none :: _, _⟩) => .ok tree
  | .ok (_, ⟨some token :: _, _⟩) =>
    .error (.reported (.unexpectedToken token.text token.position))

/-! Agreement with reading token by token. What climbing holds in its recursion stands in the frames
of the reader: the operators still waiting for an operand are those to the left, all of them looser
than the level. So a tree that climbing returns is what the frame is completed by. -/
section Agreement

variable {allowed : Option (List String)} {endPosition : Nat}

def resume (allowed : Option (List String)) (endPosition : Nat) (state : Reader.State)
    (tokens : List Token) : Except ReadError Expr :=
  tokens.foldlM (Reader.step allowed) state >>= Reader.finish endPosition

theorem resume_step {state next : Reader.State} {token : Token} (tokens : List Token)
    (first : Reader.step allowed state token = .ok next) :
    resume allowed endPosition state (token :: tokens) =
      resume allowed endPosition next tokens := by
  rw [resume, Reader.run_cons tokens first, resume]

theorem resume_error {state : Reader.State} {token : Token} {e : ReadError} (tokens : List Token)
    (first : Reader.step allowed state token = .error e) :
    resume allowed endPosition state (token :: tokens) = .error e := by
  rw [resume, List.foldlM_cons, first]
  rfl

def plain {bound : Cursor → Prop}
    (outcome : Except Fault (Expr × { rest : Cursor // bound rest })) :
    Except Fault (Expr × Cursor) :=
  outcome.map fun done => (done.1, done.2.val)

/-- The outcome is the reader's: the same error, or a tree with which the reader goes on over the
tokens that are left. -/
def Simulates (reader : Except ReadError Expr) (goesOn : Expr → List Token → Except ReadError Expr)
    (post : Expr → List Token → Prop) (outcome : Except Fault (Expr × Cursor)) : Prop :=
  (∃ e, outcome = .error (.reported e) ∧ reader = .error e) ∨
    ∃ tree rest, outcome = .ok (tree, cursor rest) ∧ reader = goesOn tree rest ∧ post tree rest

theorem Simulates.outcomes {reader : Except ReadError Expr}
    {goesOn : Expr → List Token → Except ReadError Expr} {post : Expr → List Token → Prop}
    {bound : Cursor → Prop} {outcome : Except Fault (Expr × { rest : Cursor // bound rest })}
    (simulates : Simulates reader goesOn post (plain outcome)) :
    (∃ e, outcome = .error (.reported e) ∧ reader = .error e) ∨
      ∃ tree rest, ∃ kept : bound (cursor rest), outcome = .ok (tree, ⟨cursor rest, kept⟩) ∧
        reader = goesOn tree rest ∧ post tree rest := by
  cases outcome with
  | error fault =>
      rcases simulates with ⟨e, same, failed⟩ | ⟨_, _, same, _⟩
      · cases same
        exact .inl ⟨e, rfl, failed⟩
      · cases same
  | ok done =>
      obtain ⟨tree, rest, kept⟩ := done
      rcases simulates with ⟨_, same, _⟩ | ⟨tree, rest, same, goesOn⟩
      · cases same
      · cases same
        exact .inr ⟨tree, rest, kept, rfl, goesOn⟩

def NextBinOp (tokens : List Token) (property : BinOp → Prop) : Prop :=
  ∀ token ∈ tokens.head?, ∀ op : BinOp, token.text = op.token → property op

def Waits (left : Option (Expr × BinOp)) (level : Nat) : Prop :=
  ∀ pending ∈ left, level < pending.2.precedence

/-- An outcome that completes the frame as the reader does, with a tree that signs can bind. -/
def CompletesFrame (allowed : Option (List String)) (endPosition : Nat) (tokens : List Token)
    (frame : Reader.Frame) (stack : List Reader.Frame) {bound : Cursor → Prop}
    (outcome : Except Fault (Expr × { rest : Cursor // bound rest })) : Prop :=
  Simulates (resume allowed endPosition (.expectsOperand frame stack) tokens)
    (fun tree => resume allowed endPosition (.expectsOperator (frame.complete tree) stack))
    (fun tree rest => rest <:+ tokens ∧ tree.precedence ≤ UnOp.precedence)
    (plain outcome)

/-- An outcome that takes all operators of the level: from the state on, the reader goes the same
way as far as a looser operator or to what is none. -/
def CompletesLevel (allowed : Option (List String)) (endPosition level : Nat) (tokens : List Token)
    (left : Option (Expr × BinOp)) (stack : List Reader.Frame) (state : Reader.State)
    {bound : Cursor → Prop} (outcome : Except Fault (Expr × { rest : Cursor // bound rest })) :
    Prop :=
  Simulates (resume allowed endPosition state tokens)
    (fun tree =>
      resume allowed endPosition (.expectsOperator (Reader.Frame.complete ⟨left, []⟩ tree) stack))
    (fun _ rest => rest <:+ tokens ∧ NextBinOp rest (level < ·.precedence))
    (plain outcome)

theorem waits_pred (tree : Expr) (op : BinOp) : Waits (some (tree, op)) (op.precedence - 1) := by
  intro pending member
  cases member
  exact Nat.sub_lt (Nat.lt_trans Nat.two_pos op.two_lt_precedence) Nat.one_pos

structure Agreement (allowed : Option (List String)) (endPosition : Nat) (tokens : List Token) :
    Prop where
  operand : ∀ frame stack,
    CompletesFrame allowed endPosition tokens frame stack
      (operand allowed endPosition (cursor tokens))
  extend : ∀ level lhs left stack, Waits left level →
    NextBinOp tokens (lhs.precedence ≤ ·.precedence) →
    CompletesLevel allowed endPosition level tokens left stack
      (.expectsOperator (Reader.Frame.complete ⟨left, []⟩ lhs) stack)
      (extend allowed endPosition level lhs (cursor tokens))
  climb : ∀ level left stack, Waits left level →
    CompletesLevel allowed endPosition level tokens left stack (.expectsOperand ⟨left, []⟩ stack)
      (climb allowed endPosition level (cursor tokens))

@[simp] theorem cursor_nil : cursor [] = [none] := rfl

@[simp] theorem cursor_cons (token : Token) (tokens : List Token) :
    cursor (token :: tokens) = some token :: cursor tokens := rfl

theorem length_cursor (tokens : List Token) : (cursor tokens).length = tokens.length + 1 := by
  simp [cursor]

theorem writesUnOp_iff (token : Token) :
    writesUnOp token = true ↔ token.cls = .operator ∧ ∃ op : UnOp, token.text = op.token := by
  simp only [writesUnOp, Bool.and_eq_true, decide_eq_true_eq, List.any_eq_true, beq_iff_eq]
  constructor
  · rintro ⟨cls, op, _, text⟩
    exact ⟨cls, op, text.symm⟩
  · rintro ⟨cls, op, text⟩
    exact ⟨cls, op, op.mem_all, text.symm⟩

theorem writesBinOp_iff (token : Token) :
    writesBinOp token = true ↔ token.cls = .operator ∧ ∃ op : BinOp, token.text = op.token := by
  simp only [writesBinOp, Bool.and_eq_true, decide_eq_true_eq, List.any_eq_true, beq_iff_eq]
  constructor
  · rintro ⟨cls, op, _, text⟩
    exact ⟨cls, op, text.symm⟩
  · rintro ⟨cls, op, text⟩
    exact ⟨cls, op, op.mem_all, text.symm⟩

theorem ofToken_eq_none_of_loosest {token : Token} {rest : List Token}
    (stops : NextBinOp (token :: rest) (BinOp.loosest < ·.precedence)) :
    BinOp.ofToken? token.text = none := by
  cases found : BinOp.ofToken? token.text with
  | none => rfl
  | some op =>
      have looser := stops token rfl op (BinOp.eq_token_of_ofToken? found)
      exact absurd op.precedence_le_loosest (Nat.not_le_of_lt looser)

theorem leaf_agrees {token : Token} {leaf : Expr} (rest : List Token) (shape : token.WellFormed)
    (taken : Reader.Leaf allowed token leaf)
    (same : primary allowed endPosition (cursor (token :: rest)) =
      .ok (leaf, ⟨cursor rest, Nat.lt_succ_self _⟩))
    (frame : Reader.Frame) (stack : List Reader.Frame) :
    CompletesFrame allowed endPosition (token :: rest) frame stack
      (primary allowed endPosition (cursor (token :: rest))) := by
  rw [same]
  exact .inr ⟨leaf, rest, rfl, resume_step rest (Reader.step_of_relation shape (.leaf taken)),
    List.suffix_cons .., by rw [taken.precedence]; exact Nat.zero_le _⟩

theorem parens_agrees (token : Token) (rest : List Token)
    (shapes : ∀ other ∈ token :: rest, other.WellFormed) (cls : token.cls = .leftParen)
    (inside : ∀ stack,
      CompletesLevel allowed endPosition BinOp.loosest rest none stack
        (.expectsOperand .empty stack) (climb allowed endPosition BinOp.loosest (cursor rest)))
    (frame : Reader.Frame) (stack : List Reader.Frame) :
    CompletesFrame allowed endPosition (token :: rest) frame stack
      (primary allowed endPosition (cursor (token :: rest))) := by
  have shape := shapes token (by simp)
  rw [CompletesFrame, resume_step rest (Reader.step_of_relation shape (.opening cls)), cursor_cons,
    primary, cls]
  dsimp only
  rcases (inside (frame :: stack)).outcomes with
    ⟨e, same, failed⟩ | ⟨inner, after, kept, same, goesOn, suffix, stops⟩
  · rw [same]
    exact .inl ⟨e, rfl, failed⟩
  · rw [same, goesOn]
    cases after with
    | nil => exact .inl ⟨.unclosed endPosition [], rfl, rfl⟩
    | cons closing final =>
        have closingShape := shapes closing
          (List.mem_cons_of_mem _ (suffix.subset (List.mem_cons_self ..)))
        dsimp only [cursor_cons]
        by_cases closed : closing.cls = .rightParen
        · rw [resume_step final (Reader.step_of_relation closingShape (.closing closed))]
          simp only [closed, ↓reduceIte]
          exact .inr ⟨.parens inner, final, rfl, rfl,
            ((List.suffix_cons closing final).trans suffix).trans (List.suffix_cons ..),
            Nat.zero_le _⟩
        · simp only [closed, ↓reduceIte]
          -- Inside parentheses all operators are taken, so the reader cannot read on either.
          have noOperator := ofToken_eq_none_of_loosest stops
          refine .inl ⟨.unclosed closing.position closing.text, rfl, resume_error final ?_⟩
          cases other : closing.cls <;> simp [Reader.step, noOperator, other]
          exact closed other

theorem primary_agrees (token : Token) (rest : List Token)
    (shapes : ∀ other ∈ token :: rest, other.WellFormed) (noSign : writesUnOp token = false)
    (inside : ∀ stack,
      CompletesLevel allowed endPosition BinOp.loosest rest none stack
        (.expectsOperand .empty stack) (climb allowed endPosition BinOp.loosest (cursor rest)))
    (frame : Reader.Frame) (stack : List Reader.Frame) :
    CompletesFrame allowed endPosition (token :: rest) frame stack
      (primary allowed endPosition (cursor (token :: rest))) := by
  have shape := shapes token (by simp)
  cases cls : token.cls with
  | integer =>
      by_cases short : token.text.length ≤ maxDigits
      · exact leaf_agrees rest shape (.integer cls short)
          (by simp [primary, cls, readDigits, short]) frame stack
      · refine .inl ⟨.tooManyDigits ⟨token.text.length⟩, ?_, resume_error rest ?_⟩
        · simp [primary, cls, readDigits, short, plain, Except.map]
        · simp [Reader.step, cls, readDigits, short]
  | double => exact leaf_agrees rest shape (.double cls) (by simp [primary, cls]) frame stack
  | identifier =>
      by_cases listed : allowed.all (·.contains (String.ofList token.text)) = true
      · exact leaf_agrees rest shape (.identifier cls ((Reader.allowed_all_iff _).mp listed))
          (by simp only [cursor_cons, primary, cls, listed, ↓reduceIte]) frame stack
      · refine .inl ⟨.unknownIdentifier token.text token.position, ?_, resume_error rest ?_⟩
        · simp only [cursor_cons, primary, cls, listed]
          rfl
        · simp only [Reader.step, cls, listed]
          rfl
  | operator =>
      have noSign : UnOp.ofToken? token.text = none := by
        cases found : UnOp.ofToken? token.text with
        | none => rfl
        | some op =>
            have sign := (writesUnOp_iff token).mpr ⟨cls, op, UnOp.eq_token_of_ofToken? found⟩
            rw [noSign] at sign
            cases sign
      refine .inl ⟨.unexpectedToken token.text token.position, ?_, resume_error rest ?_⟩
      · simp [primary, cls, plain, Except.map]
      · simp [Reader.step, cls, noSign]
  | rightParen =>
      have noSign := Reader.unOp_ofToken_eq_none shape (by simp [cls])
      refine .inl ⟨.unexpectedToken token.text token.position, ?_, resume_error rest ?_⟩
      · simp [primary, cls, plain, Except.map]
      · simp [Reader.step, cls, noSign]
  | leftParen => exact parens_agrees token rest shapes cls inside frame stack

theorem operand_agrees (tokens : List Token) (shapes : ∀ token ∈ tokens, token.WellFormed)
    (smaller : ∀ rest, rest.length < tokens.length → (∀ token ∈ rest, token.WellFormed) →
      Agreement allowed endPosition rest) (frame : Reader.Frame) (stack : List Reader.Frame) :
    CompletesFrame allowed endPosition tokens frame stack
      (operand allowed endPosition (cursor tokens)) := by
  cases tokens with
  | nil =>
      refine .inl ⟨.unexpectedEnd, ?_, rfl⟩
      simp [operand, primary, plain, Except.map]
  | cons token rest =>
      have shape := shapes token (by simp)
      have later : ∀ other ∈ rest, other.WellFormed :=
        fun other member => shapes other (List.mem_cons_of_mem _ member)
      have induct := smaller rest (Nat.lt_succ_self _) later
      rw [cursor_cons, operand]
      by_cases sign : writesUnOp token = true
      · obtain ⟨cls, op, text⟩ := (writesUnOp_iff token).mp sign
        obtain ⟨left, signs⟩ := frame
        have first : Reader.step allowed (.expectsOperand ⟨left, signs⟩ stack) token =
            .ok (.expectsOperand ⟨left, op :: signs⟩ stack) :=
          Reader.step_of_relation shape (.sign cls text)
        rw [CompletesFrame, resume_step rest first]
        have known : UnOp.ofToken? token.text = some op := by rw [text, UnOp.ofToken?_token]
        simp only [sign, ↓reduceIte, known]
        rcases (induct.operand ⟨left, op :: signs⟩ stack).outcomes with
          ⟨e, same, failed⟩ | ⟨inner, after, kept, same, goesOn, suffix, low⟩
        · rw [same]
          exact .inl ⟨e, rfl, failed⟩
        · rw [same]
          exact .inr ⟨_, after, rfl, goesOn, suffix.trans (List.suffix_cons ..), Nat.le_refl _⟩
      · simp only [sign, Bool.false_eq_true, ↓reduceIte]
        exact primary_agrees token rest shapes (by simpa using sign)
          (fun stack => induct.climb BinOp.loosest none stack (fun _ member => nomatch member))
          frame stack

theorem nextBinOp_of_text {token : Token} {op : BinOp} {property : BinOp → Prop}
    (text : token.text = op.token) (has : property op) (rest : List Token) :
    NextBinOp (token :: rest) property := by
  intro next member other same
  cases member
  have known : BinOp.ofToken? token.text = some op := by rw [text, BinOp.ofToken?_token]
  rw [same, BinOp.ofToken?_token] at known
  cases known
  exact has

/-- Where the loop takes no operator it ends, and the reader has not moved. -/
theorem stop_agrees {level : Nat} {lhs : Expr} {left : Option (Expr × BinOp)}
    {stack : List Reader.Frame} {tokens : List Token}
    (same : extend allowed endPosition level lhs (cursor tokens) =
      .ok (lhs, ⟨cursor tokens, Nat.le_refl _⟩))
    (stops : NextBinOp tokens (level < ·.precedence)) :
    CompletesLevel allowed endPosition level tokens left stack
      (.expectsOperator (Reader.Frame.complete ⟨left, []⟩ lhs) stack)
      (extend allowed endPosition level lhs (cursor tokens)) := by
  rw [same]
  exact .inr ⟨lhs, tokens, rfl, rfl, List.suffix_refl _, stops⟩

/-- Where the loop takes an operator, the right operand is read and the loop goes on. -/
theorem take_agrees (token : Token) (rest : List Token)
    (shapes : ∀ other ∈ token :: rest, other.WellFormed)
    (smaller : ∀ after, after.length < (token :: rest).length →
      (∀ other ∈ after, other.WellFormed) → Agreement allowed endPosition after)
    {level : Nat} {lhs : Expr} {left : Option (Expr × BinOp)} {stack : List Reader.Frame}
    {op : BinOp}
    (cls : token.cls = .operator) (text : token.text = op.token) (taken : op.precedence ≤ level)
    (waits : Waits left level) (fits : lhs.precedence ≤ op.precedence) :
    CompletesLevel allowed endPosition level (token :: rest) left stack
      (.expectsOperator (Reader.Frame.complete ⟨left, []⟩ lhs) stack)
      (extend allowed endPosition level lhs (cursor (token :: rest))) := by
  have operator := (writesBinOp_iff token).mpr ⟨cls, op, text⟩
  have known : BinOp.ofToken? token.text = some op := by rw [text, BinOp.ofToken?_token]
  have later : ∀ other ∈ rest, other.WellFormed :=
    fun other member => shapes other (List.mem_cons_of_mem _ member)
  have first : Reader.step allowed
      (.expectsOperator (Reader.Frame.complete ⟨left, []⟩ lhs) stack) token =
      .ok (.expectsOperand ⟨some (Reader.Frame.complete ⟨left, []⟩ lhs, op), []⟩ stack) :=
    Reader.step_of_relation (shapes token (by simp)) (.operator cls text)
  rw [CompletesLevel, resume_step rest first, cursor_cons, extend]
  simp only [operator, ↓reduceIte, known, Nat.not_lt_of_le taken]
  -- The right operand is one level tighter: what waits for it now is this operator alone.
  rcases ((smaller rest (Nat.lt_succ_self _) later).climb (op.precedence - 1) _ stack
    (waits_pred _ op)).outcomes with
    ⟨e, same, failed⟩ | ⟨rhs, after, kept, same, goesOn, suffix, stops⟩
  · rw [same]
    exact .inl ⟨e, rfl, failed⟩
  · -- The frame holds the left side already; behind the right operand it is completed by the whole
    -- binary tree, and the loop goes on with that tree in the same frame.
    have whole := Reader.Frame.complete_attach ⟨left, []⟩ op lhs rhs
      (.inr ⟨rfl, fun pending member => Nat.lt_of_le_of_lt taken (waits pending member)⟩) fits
    have shorter : after.length < (token :: rest).length := Nat.lt_succ_of_le suffix.length_le
    have shapesAfter : ∀ other ∈ after, other.WellFormed :=
      fun other member => later other (suffix.subset member)
    have fitsAfter : NextBinOp after ((Expr.binary op lhs rhs).precedence ≤ ·.precedence) :=
      fun next member other text => Nat.le_of_pred_lt (stops next member other text)
    rw [goesOn, Reader.Frame.complete_pending, whole, same]
    rcases ((smaller after shorter shapesAfter).extend level (.binary op lhs rhs) left stack waits
      fitsAfter).outcomes with
      ⟨e, same, failed⟩ | ⟨tree, final, kept, same, goesOn, further, stops⟩
    · simp only [same]
      exact .inl ⟨e, rfl, failed⟩
    · simp only [same]
      exact .inr ⟨tree, final, rfl, goesOn, (further.trans suffix).trans (List.suffix_cons ..),
        stops⟩

theorem extend_agrees (tokens : List Token) (shapes : ∀ token ∈ tokens, token.WellFormed)
    (smaller : ∀ rest, rest.length < tokens.length → (∀ token ∈ rest, token.WellFormed) →
      Agreement allowed endPosition rest) (level : Nat) (lhs : Expr) (left : Option (Expr × BinOp))
    (stack : List Reader.Frame) (waits : Waits left level)
    (fits : NextBinOp tokens (lhs.precedence ≤ ·.precedence)) :
    CompletesLevel allowed endPosition level tokens left stack
      (.expectsOperator (Reader.Frame.complete ⟨left, []⟩ lhs) stack)
      (extend allowed endPosition level lhs (cursor tokens)) := by
  cases tokens with
  | nil => exact stop_agrees (by simp [extend]) fun _ member => nomatch member
  | cons token rest =>
      by_cases operator : writesBinOp token = true
      · obtain ⟨cls, op, text⟩ := (writesBinOp_iff token).mp operator
        by_cases looser : level < op.precedence
        · have known : BinOp.ofToken? token.text = some op := by rw [text, BinOp.ofToken?_token]
          exact stop_agrees (by simp [extend, operator, known, looser])
            (nextBinOp_of_text text looser rest)
        · exact take_agrees token rest shapes smaller cls text (Nat.le_of_not_lt looser) waits
            (fits token rfl op text)
      · apply stop_agrees (by simp [extend, operator])
        intro next member op text
        cases member
        have cls := Token.cls_of_isOperator (shapes token (by simp)) (.inl ⟨op, text⟩)
        exact absurd ((writesBinOp_iff token).mpr ⟨cls, op, text⟩) operator

theorem climb_agrees (tokens : List Token) (shapes : ∀ token ∈ tokens, token.WellFormed)
    (smaller : ∀ rest, rest.length < tokens.length → (∀ token ∈ rest, token.WellFormed) →
      Agreement allowed endPosition rest) (level : Nat) (left : Option (Expr × BinOp))
    (stack : List Reader.Frame) (waits : Waits left level) :
    CompletesLevel allowed endPosition level tokens left stack (.expectsOperand ⟨left, []⟩ stack)
      (climb allowed endPosition level (cursor tokens)) := by
  rw [CompletesLevel, climb]
  rcases (operand_agrees tokens shapes smaller ⟨left, []⟩ stack).outcomes with
    ⟨e, same, failed⟩ | ⟨lhs, rest, shorter, same, goesOn, suffix, low⟩
  · rw [same]
    exact .inl ⟨e, rfl, failed⟩
  · have fewer : rest.length < tokens.length := by simpa [length_cursor] using shorter
    have shapesRest : ∀ token ∈ rest, token.WellFormed :=
      fun token member => shapes token (suffix.subset member)
    -- An operand binds tighter than any binary operator, so the loop may start with it.
    have fits : NextBinOp rest (lhs.precedence ≤ ·.precedence) :=
      fun _ _ op _ => Nat.le_trans low (Nat.le_of_lt op.two_lt_precedence)
    rw [same, goesOn]
    rcases ((smaller rest fewer shapesRest).extend level lhs left stack waits fits).outcomes with
      ⟨e, same, failed⟩ | ⟨tree, final, kept, same, goesOn, further, stops⟩
    · simp only [same]
      exact .inl ⟨e, rfl, failed⟩
    · simp only [same]
      exact .inr ⟨tree, final, rfl, goesOn, further.trans suffix, stops⟩

theorem agreement (tokens : List Token) (shapes : ∀ token ∈ tokens, token.WellFormed) :
    Agreement allowed endPosition tokens := by
  -- By the number of tokens: extending goes on over what climbing has left, which is shorter but
  -- not the tail of the list.
  induction size : tokens.length using Nat.strongRecOn generalizing tokens with
  | ind count ih =>
      have smaller : ∀ rest, rest.length < tokens.length → (∀ token ∈ rest, token.WellFormed) →
          Agreement allowed endPosition rest :=
        fun rest fewer later => ih rest.length (size ▸ fewer) rest later rfl
      exact ⟨operand_agrees tokens shapes smaller, extend_agrees tokens shapes smaller,
        climb_agrees tokens shapes smaller⟩

/-- Climbing and reading token by token have the same outcome; what climbing reports is what the
reader reports, and neither an empty cursor nor a failed look-up occurs. -/
theorem parse_eq_readTokens (tokens : List Token) (shapes : ∀ token ∈ tokens, token.WellFormed) :
    parse allowed endPosition tokens =
      (Reader.readTokens allowed tokens endPosition).mapError .reported := by
  have whole : Reader.readTokens allowed tokens endPosition =
      resume allowed endPosition .start tokens := rfl
  rw [whole, parse]
  rcases ((agreement tokens shapes).climb BinOp.loosest none []
    (fun _ member => nomatch member)).outcomes with
    ⟨e, same, failed⟩ | ⟨tree, rest, kept, same, goesOn, suffix, stops⟩
  · rw [same]
    exact (congrArg (Except.mapError Fault.reported) failed).symm
  · rw [same]
    have goesOn : resume allowed endPosition .start tokens =
        resume allowed endPosition (.expectsOperator tree []) rest := goesOn
    rw [goesOn]
    cases rest with
    | nil => rfl
    | cons token rest =>
        have noOperator := ofToken_eq_none_of_loosest stops
        have unexpected : Reader.step allowed (.expectsOperator tree []) token =
            .error (.unexpectedToken token.text token.position) := by simp [Reader.step, noOperator]
        rw [resume_error rest unexpected]
        rfl

end Agreement

end Climbing
end CExpr
