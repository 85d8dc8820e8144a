import CExpr.Proofs.CommandLine.Lines
import CExpr.Proofs.Expr.Nodes
import CExpr.Proofs.Generator.Faithful
import CExpr.Proofs.Generator.RoundTrip

/-!
Printed lines that read back. A line is the text of the tree that was generated, with a value behind it
if one is asked for. The text reads back as the tree as long as the name of the variable can be read as
a name. Nothing asks for that when the name is taken from the command line, and a tree with a variable
of another name never comes back.
-/
namespace CExpr
open Text

namespace Double

theorem isFinite_of_between {lo value hi : Double} (lower : lo.isNonnegative = true)
    (above : lo.le value = true) (upper : hi.isFinite = true) (below : value.le hi = true) :
    value.isFinite = true := by
  cases value with
  | finite negative units fits => rfl
  | nan => cases lo <;> cases above
  | infinite negative =>
      cases isNonnegative_infinite.mp (isNonnegative_of_le lower above)
      cases hi with
      | finite sign count otherFits => cases below
      | nan | infinite sign => cases upper

end Double

namespace Source

variable {σ α : Type}

theorem granted_eq_ok {draw : Draw σ α} {s after : σ × Nat} {a : α}
    (returned : granted draw s = (.ok a, after)) : draw s.1 = (.ok a, after.1) := by
  obtain ⟨state, left⟩ := s
  cases left with
  | zero => cases returned
  | succ left =>
      change ((draw state).1, (draw state).2, left) = _ at returned
      rcases drawn : draw state with ⟨result, behind⟩
      rw [drawn] at returned
      cases returned
      rfl

end Source

namespace Generator.Answers

variable {σ : Type} {config : Config} {test : Expr → Prop}

theorem limited {source : Source σ} {good : σ → Prop} (answers : Answers source config good test) :
    Answers source.limited config (fun s => good s.1) test where
  choice start drawn := answers.choice start (Source.granted_eq_ok drawn)
  bit start drawn := answers.bit start (Source.granted_eq_ok drawn)
  integer start drawn := answers.integer start (Source.granted_eq_ok drawn)
  real start drawn := answers.real start (Source.granted_eq_ok drawn)
  coin start drawn := answers.coin start (Source.granted_eq_ok drawn)

/-- The constants that a bounded engine draws are in range, provided that it has no negative zero. -/
theorem engine {engine : Engine σ} (bounded : engine.Bounded) (legal : config.Legal)
    (signless : ∀ s, (engine.real config.doubleMin config.doubleMax s).1 ≠ .zero true) :
    Answers engine.source config (fun _ => True) (InRange config) where
  choice _ _ := trivial
  bit _ _ := trivial
  integer _ drawn := ⟨trivial, bounded.faithful.integer drawn⟩
  real {s after value} _ drawn := by
    have ⟨above, below⟩ := bounded.faithful.real legal.doubleMin_nonneg legal.doubleMax_finite
      legal.doubles drawn
    have finite := Double.isFinite_of_between legal.doubleMin_nonneg above legal.doubleMax_finite below
    have taken : engine.source.real config.doubleMin config.doubleMax =
        Engine.take (engine.real config.doubleMin config.doubleMax) :=
      if_neg (Bool.eq_false_iff.mp (Double.not_lt_of_le legal.doubles))
    rw [taken] at drawn
    cases drawn
    exact ⟨trivial, finite, above, below, signless s⟩
  coin _ _ := trivial

end Generator.Answers

namespace Expr

theorem everyLeaf_iff {test : Expr → Prop} (e : Expr) :
    e.EveryLeaf test ↔ ∀ node ∈ e.subexpressions, node.children = [] → test node := by
  rw [← everyNode_iff]
  induction e with
  | integer value | double value | var name => simp [EveryLeaf, EveryNode, children]
  | unary op operand ih | parens operand ih => simp [EveryLeaf, EveryNode, children, ih]
  | binary op lhs rhs left right => simp [EveryLeaf, EveryNode, children, left, right]

def IsOver (name : String) : Expr → Prop
  | var other => other = name
  | leaf => leaf.IsPlain ∧ leaf.IsShort

/-- A tree as the generator makes it over a variable, whatever the name of the variable. -/
structure Regular (name : String) (e : Expr) : Prop where
  grouped : e.PrecedenceCorrect
  leaves : e.EveryLeaf (IsOver name)

variable {name : String} {e : Expr}

theorem everyLeaf_not_isVariable (without : e.hasVariable = false) :
    e.EveryLeaf fun leaf => leaf.isVariable = false := by
  rw [everyLeaf_iff]
  intro node member _
  exact Bool.eq_false_iff.mpr (List.any_eq_false.mp without node member)

namespace Regular

theorem short (regular : e.Regular name) : e.EveryLeaf IsShort := by
  refine regular.leaves.imp fun leaf _ made => ?_
  cases leaf with
  | integer value | double value => exact made.2
  | var other | unary op operand | binary op lhs rhs | parens inner => trivial

theorem listed (regular : e.Regular name) {allowed : Option (List String)}
    (allows : ∀ names ∈ allowed, name ∈ names) : e.EveryLeaf (IsListed allowed) := by
  refine regular.leaves.imp fun leaf _ made => ?_
  cases leaf with
  | var other =>
      cases made
      exact allows
  | integer value | double value | unary op operand | binary op lhs rhs | parens inner => trivial

theorem plain (regular : e.Regular name)
    (readable : isIdentifier name.toList = true ∨ e.hasVariable = false) : e.EveryLeaf IsPlain := by
  rcases readable with identifier | without
  · refine regular.leaves.imp fun leaf _ made => ?_
    cases leaf with
    | integer value | double value => exact made.1
    | var other =>
        cases made
        exact identifier
    | unary op operand | binary op lhs rhs | parens inner => trivial
  · refine (regular.leaves.and (everyLeaf_not_isVariable without)).imp fun leaf _ both => ?_
    cases leaf with
    | integer value | double value => exact both.1.1
    | var other => cases both.2
    | unary op operand | binary op lhs rhs | parens inner => trivial

/-- Such a tree comes back out of its text, if its variable can be read or it has none. -/
theorem read_text (regular : e.Regular name)
    (readable : isIdentifier name.toList = true ∨ e.hasVariable = false)
    {allowed : Option (List String)} (allows : ∀ names ∈ allowed, name ∈ names) :
    Expr.read e.text.toList allowed = .ok e := by
  rw [text, String.toList_ofList]
  exact read_chars regular.grouped (regular.plain readable) regular.short (regular.listed allows)

theorem readable (regular : e.Regular name) (names : e.EveryLeaf HasReadableName) :
    isIdentifier name.toList = true ∨ e.hasVariable = false := by
  by_cases without : e.hasVariable = false
  · exact .inr without
  · obtain ⟨node, member, variable_⟩ := List.any_eq_true.mp (Bool.of_not_eq_false without)
    have both := (everyLeaf_iff e).mp (regular.leaves.and names) node member
    cases node with
    | var other =>
        obtain ⟨rfl, identifier⟩ := both rfl
        exact .inl identifier
    | integer | double | unary | binary | parens => cases variable_

end Regular

/-- What equals a tree that was read has readable names only, whatever the text was. -/
theorem readableName_of_read {text : List Char} {allowed : Option (List String)} {t : Expr}
    (returned : Expr.read text allowed = .ok t) (same : t.same e = true) :
    e.EveryLeaf HasReadableName := by
  cases cut : tokenize text with
  | error unexpected =>
      rw [Expr.read, cut] at returned
      cases returned
  | ok tokens =>
      rw [read_of_tokenize cut] at returned
      have shapes := tokensFrom_wellFormed 0 text tokens cut
      have reads := (Reader.built_of_readTokens shapes returned).reads
      apply readableName_of_same same
      intro lexeme member
      rw [← reads.lexemes] at member
      obtain ⟨token, old, rfl⟩ := List.mem_map.mp member
      exact Token.lexeme_legible (shapes token old)

end Expr

namespace Generator

/-- Every tree that is generated is regular, also over a name that is no identifier. -/
theorem regular_of_generate {σ : Type} {source : Source σ} {config : ValidConfig} {name : String}
    {good : σ → Prop} (answers : Answers source config.val good (InRange config.val)) {depth : Nat}
    {s after : σ} (start : good s) {tree : Expr}
    (returned : generate source config name depth s = (.ok tree, after)) : tree.Regular name := by
  have legal := ValidConfig.legal config
  obtain ⟨weights, _, drawn⟩ := generate_eq_ok.mp returned
  have run := run_of_draw drawn
  have leaves : Answers source config.val good (Expr.IsOver name) := by
    refine answers.imp ?_ ?_
    · intro value range
      have nonnegative := Int.le_trans legal.integerMin_nonneg range.1
      exact ⟨nonnegative, isShort_of_le_limit nonnegative (Int.le_trans range.2 legal.integerMax_le)⟩
    · intro value range
      obtain ⟨finite, lower, _, signless⟩ := range
      have nonnegative := Double.isNonnegative_of_le legal.doubleMin_nonneg lower
      exact ⟨Double.exists_of_isNonnegative nonnegative finite signless, trivial⟩
  exact ⟨run.drawable.grouped, (leaves.everyLeaf rfl start run).2⟩

end Generator

/-- A line says a tree: it has a text that reads back as the tree, whether the variable is the only name
allowed or not, and behind a tab the value of what is read if values are asked for and the tree has no
double. -/
def Says (arguments : Arguments) (name line : String) (e : Expr) : Prop :=
  ∃ text twin, Expr.read text.toList (some [name]) = .ok twin ∧
    Expr.read text.toList none = .ok twin ∧ twin.same e = true ∧
    if arguments.reference && e.isIntegerOnly then
      ∃ value, twin.reference [(name, arguments.nameValue.getD 0)] = .ok value ∧
        line = text ++ "\t" ++ toString value.toNat
    else line = text

section Lines

variable {arguments : Arguments} {name line : String} {e : Expr}

theorem Expr.textFor_eq_text (named : arguments.name = .value name) :
    e.textFor arguments = .ok e.text := by
  rw [Expr.textFor, named]
  rfl

theorem Expr.reference_of_valueFor {value : Word} (named : arguments.name = .value name)
    (valued : e.valueFor arguments = .ok value) :
    e.reference [(name, arguments.nameValue.getD 0)] = .ok value := by
  rw [Expr.valueFor, named] at valued
  dsimp only at valued
  split at valued
  · cases valued
  · exact mapError_eq_ok.mp valued

theorem says_of_read (named : arguments.name = .value name) (written : e.line arguments = .ok line)
    (listed : Expr.read e.text.toList (some [name]) = .ok e)
    (free : Expr.read e.text.toList none = .ok e) (self : e.same e = true) :
    Says arguments name line e := by
  refine ⟨e.text, e, listed, free, self, ?_⟩
  rw [Expr.line] at written
  by_cases valued : (arguments.reference && e.isIntegerOnly) = true
  · rw [if_pos valued] at written ⊢
    obtain ⟨value, found, printed⟩ := bind_eq_ok.mp written
    rw [Expr.textFor_eq_text named] at printed
    cases printed
    exact ⟨value, Expr.reference_of_valueFor named found, rfl⟩
  · rw [if_neg valued, Expr.textFor_eq_text named] at written
    rw [if_neg valued]
    cases written
    rfl

theorem says_iff (named : arguments.name = .value name) (written : e.line arguments = .ok line)
    (regular : e.Regular name) :
    Says arguments name line e ↔ isIdentifier name.toList = true ∨ e.hasVariable = false := by
  constructor
  · rintro ⟨text, twin, listed, _, same, _⟩
    exact regular.readable (Expr.readableName_of_read listed same)
  · intro readable
    have listed : Expr.read e.text.toList (some [name]) = .ok e :=
      regular.read_text readable (by simp)
    have free : Expr.read e.text.toList none = .ok e := regular.read_text readable nofun
    exact says_of_read named written listed free (Expr.same_self (regular.plain readable))

/-- Every line of a run says the tree it was printed for, unless the name of the variable cannot be
read as a name and the tree has the variable; such a line never does. A run without a failure has a
line for each of its trees. -/
theorem lines_say_iff {σ : Type} (engine : Engine σ) (bounded : engine.Bounded) (config : ValidConfig)
    (signless : ∀ s, (engine.real config.val.doubleMin config.val.doubleMax s).1 ≠ .zero true)
    (seeded : Int → σ) (spareSeed : Int) (arguments : Arguments) (name : String)
    (named : arguments.name = .value name) (grants : Nat → Option Nat) :
    let report := runFrom engine.source seeded spareSeed arguments (.ok config) grants
    ∃ printed rest,
      runTrees engine.source seeded spareSeed arguments config grants = printed ++ rest ∧
        List.Forall₂ (fun line e => Says arguments name line e ↔
          isIdentifier name.toList = true ∨ e.hasVariable = false) report.lines printed ∧
        (report.status = .ok 0 → rest = []) := by
  intro report
  have answers := Generator.Answers.engine bounded (ValidConfig.legal config) signless
  obtain ⟨printed, rest, same, told, whole⟩ :=
    @Shows.runFrom _ arguments engine.source seeded spareSeed config grants
  refine ⟨printed, rest, same, ?_, whole⟩
  have regular : ∀ e ∈ printed, e.Regular name := by
    intro e member
    have generated : e ∈ runTrees engine.source seeded spareSeed arguments config grants := by
      rw [same]
      exact List.mem_append_left rest member
    obtain ⟨iteration, requested, told⟩ := List.mem_filterMap.mp generated
    cases Iteration.tree?_eq_some.mp told
    rw [named] at requested
    apply Iteration.holds_of_mem_series ?_ ?_ _ _ _ _ e requested
    · intro s after e returned
      exact Generator.regular_of_generate answers trivial returned
    · intro s after e returned
      exact Generator.regular_of_generate answers.limited trivial returned
  have paired := (List.forall₂_and_left _ _).mpr ⟨regular, told.flip⟩
  exact (paired.imp fun e line found => says_iff named found.2 found.1).flip

/-- A sum of two variables and its value, asked for twice. -/
theorem lines_say_iff_sum :
    let engine := Engine.constant (.ofRatio false 1 2)
    let config : ValidConfig := ⟨.default, Config.default_valid⟩
    let arguments : Arguments :=
      { Arguments.default with count := .value 2, reference := true, nameValue := .value 7 }
    let report := runFrom engine.source (fun _ => ()) 0 arguments (.ok config) fun _ => none
    let sum : Expr := .binary .plus (.var "x") (.var "x")
    (engine.Bounded ∧
        (∀ s, (engine.real config.val.doubleMin config.val.doubleMax s).1 ≠ .zero true) ∧
        arguments.name = .value "x") ∧
      report.lines = ["x + x\t14", "x + x\t14"] ∧ Says arguments "x" "x + x\t14" sum := by
  intro engine config arguments report sum
  have bounded : engine.Bounded := Engine.constant_bounded ⟨by decide +kernel, by decide +kernel⟩
  have signless : ∀ s, (engine.real config.val.doubleMin config.val.doubleMax s).1 ≠ .zero true := by
    rintro ⟨⟩
    decide +kernel
  have lines : report.lines = ["x + x\t14", "x + x\t14"] := by decide +kernel
  have trees : runTrees engine.source (fun _ => ()) 0 arguments config (fun _ => none) =
      [sum, sum] := by decide +kernel
  obtain ⟨printed, rest, same, told, _⟩ := lines_say_iff engine bounded config signless
    (fun _ => ()) 0 arguments "x" rfl fun _ => none
  change List.Forall₂ _ report.lines printed at told
  rw [lines] at told
  rw [trees] at same
  obtain ⟨e, others, first, _, rfl⟩ := List.forall₂_cons_left_iff.mp told
  obtain ⟨rfl, _⟩ := List.cons.inj same
  exact ⟨⟨bounded, signless, rfl⟩, lines, first.mpr (.inl (by decide))⟩

/-- With the digit `2` for a name the sum is printed as `2 + 2`, which reads back as another tree, and
the value behind it is not that of what is read. -/
theorem not_forall_lines_say :
    let engine := Engine.constant (.ofRatio false 1 2)
    let config : ValidConfig := ⟨.default, Config.default_valid⟩
    let words := ["--count", "1", "--variable", "2", "--reference", "--var-value", "7"]
    let sum : Expr := .binary .plus (.var "2") (.var "2")
    ∃ arguments, Arguments.ofWords (words.map String.toList) = .ok arguments ∧
      arguments.name = .value "2" ∧ engine.Bounded ∧
      runTrees engine.source (fun _ => ()) 0 arguments config (fun _ => none) = [sum] ∧
      (runFrom engine.source (fun _ => ()) 0 arguments (.ok config) fun _ => none).lines =
        ["2 + 2\t14"] ∧
      (∃ twin, Expr.read "2 + 2".toList none = .ok twin ∧ twin.reference [("2", 7)] = .ok 4) ∧
      ¬ Says arguments "2" "2 + 2\t14" sum := by
  intro engine config words sum
  let arguments : Arguments := { Arguments.default with
    count := .value 1, name := .value "2", reference := true, nameValue := .value 7 }
  let twin : Expr := .binary .plus (.integer 2) (.integer 2)
  have accepted : Arguments.ofWords (words.map String.toList) = .ok arguments :=
    ok_of_toOption (by decide +kernel)
  have bounded : engine.Bounded := Engine.constant_bounded ⟨by decide +kernel, by decide +kernel⟩
  have free : Expr.read "2 + 2".toList none = .ok twin := ok_of_toOption (by decide +kernel)
  have value : twin.reference [("2", 7)] = .ok 4 := ok_of_toOption (by decide +kernel)
  refine ⟨arguments, accepted, rfl, bounded, by decide +kernel, by decide +kernel,
    ⟨twin, free, value⟩, ?_⟩
  rintro ⟨text, twin, listed, _, same, _⟩
  -- Whatever was read has names that can be read, and `2` is not among these.
  have names : isIdentifier "2".toList = true := (Expr.readableName_of_read listed same).1
  exact absurd names (by decide)

end Lines
end CExpr
