import CExpr.Proofs.Term.Equivalence
import CExpr.Term.Basic

/-!
Equivalence of expressions without doubles is decided: the answer is yes exactly if both have the
same reference value under all bindings of their variables. So it is an equivalence relation, and
one that holds on within any tree around the two.
-/
namespace CExpr

namespace Expr

def hasDouble : Expr → Bool
  | double _ => true
  | integer _ | var _ => false
  | unary _ operand => operand.hasDouble
  | binary _ lhs rhs => lhs.hasDouble || rhs.hasDouble
  | parens inner => inner.hasDouble

def names : Expr → List String
  | integer _ | double _ => []
  | var name => [name]
  | unary _ operand => operand.names
  | binary _ lhs rhs => lhs.names ++ rhs.names
  | parens inner => inner.names

/-- The value of an expression over words. A double, which has none, counts as zero. -/
def value (env : String → Word) : Expr → Word
  | integer value => BitVec.ofInt 64 value
  | double _ => 0
  | var name => env name
  | unary op operand => op.apply (operand.value env)
  | binary op lhs rhs => op.apply (lhs.value env) (rhs.value env)
  | parens inner => inner.value env

theorem value_congr {e : Expr} {env other : String → Word}
    (same : ∀ name ∈ e.names, env name = other name) : e.value env = e.value other := by
  induction e with
  | integer value => rfl
  | double value => rfl
  | var name => exact same name (List.mem_singleton.mpr rfl)
  | unary op operand ih => exact congrArg op.apply (ih same)
  | binary op lhs rhs left right =>
      have ⟨inLeft, inRight⟩ := List.forall_mem_append.mp same
      rw [value, value, left inLeft, right inRight]
  | parens inner ih => exact ih same

theorem mem_add {symbols : SymbolTable} {name other : String} :
    other ∈ symbols.add name ↔ other ∈ symbols ∨ other = name := by
  unfold SymbolTable.add
  split
  · rename_i known
    have member := List.contains_iff_mem.mp known
    exact (or_iff_left_of_imp fun same => same ▸ member).symm
  · rw [List.mem_append, List.mem_singleton]

theorem lower_of_hasDouble {e : Expr} (noDouble : e.hasDouble = false) :
    ∃ term : Term, (∀ env, term.eval env = e.value env) ∧
      ∀ symbols, ∃ table, e.lower symbols = (.ok term, table) ∧
        ∀ name, name ∈ table ↔ name ∈ symbols ∨ name ∈ e.names := by
  induction e with
  | integer value => exact ⟨_, fun _ => rfl, fun symbols => ⟨_, rfl, fun _ => by simp [names]⟩⟩
  | double value => cases noDouble
  | var name =>
      refine ⟨_, fun _ => rfl, fun symbols => ⟨_, rfl, fun other => ?_⟩⟩
      rw [mem_add, names, List.mem_singleton]
  | unary op operand ih =>
      obtain ⟨term, value, lower⟩ := ih noDouble
      refine ⟨.unary op term, fun env => congrArg op.apply (value env), fun symbols => ?_⟩
      obtain ⟨table, lowered, names⟩ := lower symbols
      exact ⟨table, by rw [Expr.lower, lowered]; rfl, names⟩
  | binary op lhs rhs ihL ihR =>
      have ⟨noDoubleL, noDoubleR⟩ := Bool.or_eq_false_iff.mp noDouble
      obtain ⟨left, valueL, lowerL⟩ := ihL noDoubleL
      obtain ⟨right, valueR, lowerR⟩ := ihR noDoubleR
      refine ⟨.binary op left right, fun env => ?_, fun symbols => ?_⟩
      · rw [Term.eval, valueL, valueR, value]
      · obtain ⟨middle, loweredL, namesL⟩ := lowerL symbols
        obtain ⟨table, loweredR, namesR⟩ := lowerR middle
        refine ⟨table, ?_, fun name => ?_⟩
        · rw [Expr.lower, loweredL]
          simp only
          rw [loweredR]
          rfl
        · rw [namesR, namesL, names, List.mem_append, or_assoc]
  | parens inner ih => exact ih noDouble

theorem lower_eq_error {e : Expr} (found : e.hasDouble = true) (symbols : SymbolTable) :
    ∃ noWord table, e.lower symbols = (.error noWord, table) := by
  induction e generalizing symbols with
  | integer value => cases found
  | double value => exact ⟨_, _, rfl⟩
  | var name => cases found
  | unary op operand ih =>
      obtain ⟨noWord, table, lowered⟩ := ih found symbols
      exact ⟨noWord, table, by rw [Expr.lower, lowered]; rfl⟩
  | binary op lhs rhs ihL ihR =>
      by_cases left : lhs.hasDouble = true
      · obtain ⟨noWord, table, lowered⟩ := ihL left symbols
        exact ⟨noWord, table, by rw [Expr.lower, lowered]⟩
      · obtain ⟨term, _, lower⟩ := lower_of_hasDouble (Bool.eq_false_iff.mpr left)
        obtain ⟨middle, loweredL, _⟩ := lower symbols
        have right := (Bool.or_eq_true_iff.mp found).resolve_left left
        obtain ⟨noWord, table, loweredR⟩ := ihR right middle
        refine ⟨noWord, table, ?_⟩
        rw [Expr.lower, loweredL]
        simp only
        rw [loweredR]
        rfl
  | parens inner ih => exact ih found symbols

/-- Of expressions without doubles it is decided whether they have the same value for all values of
the variables. -/
theorem equivalent_eq_ok {a b : Expr} (noDoubleA : a.hasDouble = false) (noDoubleB : b.hasDouble = false) :
    ∃ answer, a.equivalent b = .ok answer ∧
      (answer = true ↔ ∀ env, a.value env = b.value env) := by
  obtain ⟨left, valueL, lowerL⟩ := lower_of_hasDouble noDoubleA
  obtain ⟨right, valueR, lowerR⟩ := lower_of_hasDouble noDoubleB
  obtain ⟨symbols, loweredL, _⟩ := lowerL []
  obtain ⟨table, loweredR, _⟩ := lowerR symbols
  refine ⟨left.equivalent right, ?_, ?_⟩
  · rw [equivalent, loweredL]
    simp only
    rw [loweredR]
  · simp only [Term.equivalent_iff, valueL, valueR]

theorem hasDouble_of_equivalent {a b : Expr} {answer : Bool}
    (answered : a.equivalent b = .ok answer) :
    a.hasDouble = false ∧ b.hasDouble = false := by
  rw [equivalent] at answered
  constructor
  · refine Bool.eq_false_iff.mpr fun found => ?_
    obtain ⟨noWord, table, lowered⟩ := lower_eq_error found []
    rw [lowered] at answered
    cases answered
  · refine Bool.eq_false_iff.mpr fun found => ?_
    split at answered
    · cases answered
    · obtain ⟨noWord, table, lowered⟩ := lower_eq_error found ‹SymbolTable›
      rw [lowered] at answered
      cases answered

theorem equivalent_eq_true_iff {a b : Expr} :
    a.equivalent b = .ok true ↔
      (a.hasDouble = false ∧ b.hasDouble = false) ∧ ∀ env, a.value env = b.value env := by
  constructor
  · intro answered
    have noDouble := hasDouble_of_equivalent answered
    obtain ⟨answer, decided, right⟩ := equivalent_eq_ok noDouble.1 noDouble.2
    cases answered.symm.trans decided
    exact ⟨noDouble, right.mp rfl⟩
  · rintro ⟨noDouble, same⟩
    obtain ⟨answer, decided, right⟩ := equivalent_eq_ok noDouble.1 noDouble.2
    rw [decided, right.mpr same]

end Expr

def Bindings.Covers (bindings : Bindings) (names : List String) : Prop :=
  ∀ name ∈ names, (bindings.lookup name).isSome = true

instance (bindings : Bindings) (names : List String) : Decidable (bindings.Covers names) :=
  inferInstanceAs (Decidable (∀ name ∈ names, (bindings.lookup name).isSome = true))

namespace Expr

theorem reference_eq_value {e : Expr} {bindings : Bindings} (noDouble : e.hasDouble = false)
    (covers : bindings.Covers e.names) :
    e.reference bindings = .ok (e.value bindings.word) := by
  obtain ⟨term, value, lower⟩ := lower_of_hasDouble noDouble
  obtain ⟨table, lowered, names⟩ := lower []
  have bound : bindings.unbound table = [] := by
    have nothing : table.filter (fun name => (bindings.lookup name).isNone) = [] := by
      refine List.filter_eq_nil_iff.mpr fun name member => ?_
      have known := covers name (((names name).mp member).resolve_left List.not_mem_nil)
      rw [← Option.not_isSome, known]
      exact Bool.false_ne_true
    rw [Bindings.unbound, nothing, List.mergeSort_nil]
  rw [reference, lowered]
  simp only
  rw [bound, value]

theorem lookup_map {names : List String} {f : String → Int} {name : String} (member : name ∈ names) :
    (names.map fun name => (name, f name)).lookup name = some (f name) := by
  induction names with
  | nil => cases member
  | cons first rest ih =>
      rw [List.map_cons, List.lookup_cons]
      by_cases same : name = first
      · rw [same, beq_self_eq_true]
      · rw [beq_false_of_ne same]
        exact ih ((List.mem_cons.mp member).resolve_left same)

theorem exists_bindings (env : String → Word) (names : List String) :
    ∃ bindings : Bindings,
      bindings.Covers names ∧ ∀ name ∈ names, bindings.word name = env name := by
  refine ⟨names.map fun name => (name, (env name).toInt), fun name member => ?_,
    fun name member => ?_⟩
  · rw [lookup_map member]
    rfl
  · rw [Bindings.word, lookup_map member]
    exact BitVec.ofInt_toInt

/-- Values are the same for all words exactly if reference values are the same for all bindings. -/
theorem value_eq_iff {a b : Expr} (noDoubleA : a.hasDouble = false) (noDoubleB : b.hasDouble = false) :
    (∀ env, a.value env = b.value env) ↔ ∀ bindings : Bindings,
      bindings.Covers (a.names ++ b.names) →
        ∃ word, a.reference bindings = .ok word ∧ b.reference bindings = .ok word := by
  constructor
  · intro same bindings covers
    have ⟨coversA, coversB⟩ := List.forall_mem_append.mp covers
    refine ⟨_, reference_eq_value noDoubleA coversA, ?_⟩
    rw [same]
    exact reference_eq_value noDoubleB coversB
  · intro same env
    obtain ⟨bindings, covers, words⟩ := exists_bindings env (a.names ++ b.names)
    have ⟨coversA, coversB⟩ := List.forall_mem_append.mp covers
    have ⟨wordsA, wordsB⟩ := List.forall_mem_append.mp words
    obtain ⟨word, isA, isB⟩ := same bindings covers
    rw [reference_eq_value noDoubleA coversA, value_congr wordsA] at isA
    rw [reference_eq_value noDoubleB coversB, value_congr wordsB] at isB
    exact Except.ok.inj (isA.trans isB.symm)

inductive Context
  | hole
  | unary (op : UnOp) (operand : Context)
  | left (op : BinOp) (lhs : Context) (rhs : Expr)
  | right (op : BinOp) (lhs : Expr) (rhs : Context)
  | parens (inner : Context)

namespace Context

def fill (e : Expr) : Context → Expr
  | hole => e
  | unary op operand => .unary op (operand.fill e)
  | left op lhs rhs => .binary op (lhs.fill e) rhs
  | right op lhs rhs => .binary op lhs (rhs.fill e)
  | parens inner => .parens (inner.fill e)

variable {a b : Expr} (context : Context)

theorem value_fill {env : String → Word} (same : a.value env = b.value env) :
    (context.fill a).value env = (context.fill b).value env := by
  induction context with
  | hole => exact same
  | unary op operand ih => exact congrArg op.apply ih
  | left op lhs rhs ih => exact congrArg (op.apply · (rhs.value env)) ih
  | right op lhs rhs ih => exact congrArg (op.apply (lhs.value env)) ih
  | parens inner ih => exact ih

theorem hasDouble_fill (noDoubleB : b.hasDouble = false) (noDouble : (context.fill a).hasDouble = false) :
    (context.fill b).hasDouble = false := by
  induction context with
  | hole => exact noDoubleB
  | unary op operand ih => exact ih noDouble
  | left op lhs rhs ih =>
      have ⟨inside, outside⟩ := Bool.or_eq_false_iff.mp noDouble
      exact Bool.or_eq_false_iff.mpr ⟨ih inside, outside⟩
  | right op lhs rhs ih =>
      have ⟨outside, inside⟩ := Bool.or_eq_false_iff.mp noDouble
      exact Bool.or_eq_false_iff.mpr ⟨outside, ih inside⟩
  | parens inner ih => exact ih noDouble

end Context

/-- The answer on expressions without doubles is yes exactly if their reference values agree under
all bindings of their variables. Yes is therefore reflexive, symmetric and transitive, and carries
over to any tree in which one of two such expressions takes the place of the other. -/
theorem equivalent_exact :
    (∀ a b : Expr, a.hasDouble = false → b.hasDouble = false →
      ∃ answer, a.equivalent b = .ok answer ∧
        (answer = true ↔ ∀ bindings : Bindings, bindings.Covers (a.names ++ b.names) →
          ∃ word, a.reference bindings = .ok word ∧ b.reference bindings = .ok word)) ∧
      (∀ a : Expr, a.hasDouble = false → a.equivalent a = .ok true) ∧
      (∀ a b : Expr, a.equivalent b = .ok true → b.equivalent a = .ok true) ∧
      (∀ a b c : Expr, a.equivalent b = .ok true → b.equivalent c = .ok true →
        a.equivalent c = .ok true) ∧
      ∀ (context : Context) (a b : Expr), (context.fill a).hasDouble = false →
        a.equivalent b = .ok true →
          (context.fill a).equivalent (context.fill b) = .ok true := by
  refine ⟨fun a b noDoubleA noDoubleB => ?_, fun a noDouble => ?_, fun a b same => ?_,
    fun a b c first second => ?_, fun context a b noDouble same => ?_⟩
  · obtain ⟨answer, decided, right⟩ := equivalent_eq_ok noDoubleA noDoubleB
    exact ⟨answer, decided, right.trans (value_eq_iff noDoubleA noDoubleB)⟩
  · exact equivalent_eq_true_iff.mpr ⟨⟨noDouble, noDouble⟩, fun _ => rfl⟩
  · obtain ⟨⟨noDoubleA, noDoubleB⟩, values⟩ := equivalent_eq_true_iff.mp same
    exact equivalent_eq_true_iff.mpr ⟨⟨noDoubleB, noDoubleA⟩, fun env => (values env).symm⟩
  · obtain ⟨⟨noDoubleA, _⟩, values⟩ := equivalent_eq_true_iff.mp first
    obtain ⟨⟨_, noDoubleC⟩, further⟩ := equivalent_eq_true_iff.mp second
    exact equivalent_eq_true_iff.mpr ⟨⟨noDoubleA, noDoubleC⟩, fun env => (values env).trans (further env)⟩
  · obtain ⟨⟨_, noDoubleB⟩, values⟩ := equivalent_eq_true_iff.mp same
    exact equivalent_eq_true_iff.mpr
      ⟨⟨noDouble, context.hasDouble_fill noDoubleB noDouble⟩, fun env => context.value_fill (values env)⟩

/-- By zero everything is the largest word, within any tree, though a variable is lost; and not
everything is that word. -/
theorem equivalent_exact_divided_by_zero :
    let quotient := binary .div (var "x") (integer 0)
    let largest := unary .neg (integer 1)
    let ones := unary .bitNot (integer 0)
    let context := Context.left .shr .hole (var "y")
    (quotient.hasDouble = false ∧ largest.hasDouble = false ∧ ones.hasDouble = false ∧
        (context.fill quotient).hasDouble = false) ∧
      quotient.equivalent largest = .ok true ∧ largest.equivalent ones = .ok true ∧
      ones.equivalent quotient = .ok true ∧
      (context.fill quotient).equivalent (context.fill largest) = .ok true ∧
      quotient.equivalent (var "x") = .ok false := by
  intro quotient largest ones context
  obtain ⟨decides, _, symm, trans, congr⟩ := equivalent_exact
  have first : quotient.equivalent largest = .ok true := by
    obtain ⟨answer, decided, right⟩ := decides quotient largest rfl rfl
    rw [decided, right.mpr fun bindings covers => ?_]
    have ⟨coversX, coversNone⟩ := List.forall_mem_append.mp covers
    exact ⟨-1, reference_eq_value rfl coversX, reference_eq_value rfl coversNone⟩
  have second : largest.equivalent ones = .ok true := by
    obtain ⟨answer, decided, right⟩ := decides largest ones rfl rfl
    rw [decided, right.mpr fun bindings coversNone => ?_]
    have isOnes : ones.value bindings.word = -1 := (by decide : ~~~BitVec.ofInt 64 0 = (-1 : Word))
    exact ⟨-1, reference_eq_value rfl coversNone, isOnes ▸ reference_eq_value rfl coversNone⟩
  have differs : quotient.equivalent (var "x") = .ok false := by
    obtain ⟨answer, decided, right⟩ := decides quotient (var "x") rfl rfl
    have no : answer ≠ true := by
      intro yes
      obtain ⟨word, isQuotient, isVariable⟩ := right.mp yes [("x", 0)] (by decide)
      rw [reference_eq_value rfl (by decide)] at isQuotient isVariable
      exact absurd (Except.ok.inj (isQuotient.trans isVariable.symm)) (by decide)
    rw [decided, Bool.eq_false_iff.mpr no]
  exact ⟨⟨rfl, rfl, rfl, rfl⟩, first, second, symm _ _ (trans _ _ _ first second),
    congr context quotient largest rfl first, differs⟩

end Expr

end CExpr
