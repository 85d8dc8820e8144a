import CExpr.Circuit.Basic
import CExpr.Clause.Search
import Std.Data.HashMap
import Std.Data.TreeMap

/-!
Windows on circuits. The signals of a window are the propositions of a search, and each of its gates
gives the clauses that say what its value is. The gates behind a window are not looked at, so that
what is refuted there is refuted everywhere. A signal that can be had in several ways is described
in all of them, as far as the window shows what they need.
-/
namespace CExpr

structure Window where
  signals : Array Signal
  /-- The propositions of signals, by input number or mark. -/
  numbers : Std.HashMap Nat Nat

namespace Window

def ofSignals (signals : Array Signal) : Window where
  signals := signals
  numbers := .ofList (signals.toList.zipIdx.map fun (signal, p) => (signal.index, p))

def truth (w : Window) (inputs : Nat → Bool) (p : Nat) : Bool :=
  (w.signals.getD p (.fixed false)).eval inputs

def literal? (w : Window) (s : Signal) : Option Literal := do
  let p ← w.numbers[s.plain.index]?
  if w.signals[p]? = some s.plain then
    some (if s.isNegation then (Literal.positive p).negate else Literal.positive p)
  else none

def clause? (w : Window) : List Signal → Option Clause
  | [] => some []
  | .fixed true :: _ => none
  | .fixed false :: rest => w.clause? rest
  | signal :: rest => do
    let clause ← w.clause? rest
    let l ← w.literal? signal
    if clause.contains l.negate then none else some (l :: clause)

end Window

/-- A signal that is `yes` where `condition` is true and `no` elsewhere. -/
structure Definition where
  condition : Signal
  yes : Signal
  no : Signal
  signal : Signal
  eval_eq (inputs : Nat → Bool) : signal.eval inputs =
    if condition.eval inputs then yes.eval inputs else no.eval inputs

namespace Definition

def ofGate? : Signal → Option Definition
  | .choice mark condition yes no => some ⟨condition, yes, no, .choice mark condition yes no, fun _ => rfl⟩
  | _ => none

def operands (d : Definition) : List Signal := [d.condition, d.yes, d.no]

def clauses (d : Definition) : List (List Signal) :=
  [[d.condition.negate, d.yes.negate, d.signal], [d.condition.negate, d.yes, d.signal.negate],
    [d.condition, d.no.negate, d.signal], [d.condition, d.no, d.signal.negate],
    [d.yes.negate, d.no.negate, d.signal], [d.yes, d.no, d.signal.negate]]

theorem eval_clauses (d : Definition) (inputs : Nat → Bool) :
    ∀ clause ∈ d.clauses, clause.any (Signal.eval inputs) = true := by
  simp only [clauses, List.forall_mem_cons, List.any_cons, List.any_nil, Signal.eval_negate, d.eval_eq]
  cases d.condition.eval inputs <;> cases d.yes.eval inputs <;> cases d.no.eval inputs <;> simp

end Definition

namespace Window

theorem eval_literal? {w : Window} {s : Signal} {l : Literal} (inputs : Nat → Bool)
    (found : w.literal? s = some l) : l.eval (w.truth inputs) = s.eval inputs := by
  simp only [literal?, Option.bind_eq_bind, Option.bind_eq_some_iff, Option.ite_none_right_eq_some,
    Option.some.injEq] at found
  obtain ⟨p, _, at_, rfl⟩ := found
  have same : w.truth inputs p = s.plain.eval inputs := by
    simp [truth, Array.getD_eq_getD_getElem?, at_]
  rw [Signal.eval_plain inputs s]
  cases s.isNegation <;> simp [Literal.eval_negate, Literal.eval_positive, same]

theorem eval_clause? {w : Window} {signals : List Signal} {clause : Clause} (inputs : Nat → Bool)
    (found : w.clause? signals = some clause) :
    clause.eval (w.truth inputs) = signals.any (Signal.eval inputs) := by
  fun_induction clause? w signals generalizing clause with
  | case1 => cases found; rfl
  | case2 => contradiction
  | case3 rest ih => simpa [Signal.eval] using ih found
  | case4 signal rest _ _ ih =>
    simp only [Option.bind_eq_bind, Option.bind_eq_some_iff, Option.ite_none_left_eq_some,
      Option.some.injEq] at found
    obtain ⟨clause, restFound, l, signalFound, _, rfl⟩ := found
    have := ih restFound
    simp_all [Clause.eval, eval_literal? inputs signalFound]

/-- The gates that some gates depend on, those next to them first and at most so many, and all
signals met, by number. -/
def gather (next later : List Definition) (met : Std.TreeMap Nat Signal) (gates : List Definition) :
    (count : Nat) → Std.TreeMap Nat Signal × List Definition
  | 0 => (met, gates)
  | count + 1 =>
    match (if next.isEmpty then later.reverse else next) with
    | [] => (met, gates)
    | gate :: rest =>
      let new := (gate.operands.map Signal.plain).filter fun s => !s.isFixed && !met.contains s.index
      let met := new.foldl (fun met s => met.insert s.index s) met
      let later := if next.isEmpty then [] else later
      gather rest (new.filterMap Definition.ofGate? ++ later) met (gate :: gates) count

inductive Answer (goals : List (List Signal))
  | refuted (never : ∀ inputs, ∃ goal ∈ goals, goal.any (Signal.eval inputs) = false)
  /-- Inputs that make one in each true, unless the gates behind the window object. -/
  | satisfied (input : Nat → Bool)
  | undecided

theorem never_of_refutes {w : Window} {goals : List (List Signal)} {definitions : List Definition}
    {deductions : List Deduction}
    (refutes : Deduction.refutes
      ((definitions.flatMap Definition.clauses ++ goals).filterMap w.clause?).toArray deductions = true)
    (inputs : Nat → Bool) : ∃ goal ∈ goals, goal.any (Signal.eval inputs) = false := by
  obtain ⟨clause, member, isFalse⟩ :=
    Deduction.exists_false_of_refutes (w.truth inputs) refutes
  obtain ⟨signals, within, found⟩ := List.mem_filterMap.1 (List.mem_toArray.1 member)
  have := (eval_clause? inputs found).symm.trans isFalse
  rcases List.mem_append.1 within with isDefinition | isGoal
  · obtain ⟨d, _, isClause⟩ := List.mem_flatMap.1 isDefinition
    rw [d.eval_clauses inputs signals isClause] at this
    contradiction
  · exact ⟨signals, isGoal, this⟩

/-- The window that shows some signals with so many of the gates that they depend on, and the
definitions in it. Of further definitions those count whose operands the window shows. -/
def around (further : Nat → List Definition) (count : Nat) (roots : List Signal) :
    Window × List Definition :=
  let byIndex (signals : List Signal) : Std.TreeMap Nat Signal :=
    .ofList ((signals.filter fun s => !s.isFixed).map fun s => (s.index, s))
  let roots := byIndex (roots.map Signal.plain)
  let (met, gates) := gather (roots.values.filterMap Definition.ofGate?) [] roots [] count
  let isMet (s : Signal) := s.isFixed || met.contains s.index
  let related := met.values.flatMap fun s => (further s.index).filter fun d => d.operands.all isMet
  let extra := (byIndex (related.map fun d => d.signal.plain)).values.filter fun s => !isMet s
  (ofSignals (extra ++ met.values).toArray, gates ++ related ++ extra.filterMap Definition.ofGate?)

/-- Search for inputs that make one signal in each list true, in a window of so many gates and until
so many contradictions have been met. -/
def search (further : Nat → List Definition) (count limit : Nat) (goals : List (List Signal)) :
    Answer goals :=
  let (w, definitions) := around further count goals.flatten
  let clauses := ((definitions.flatMap Definition.clauses ++ goals).filterMap w.clause?).toArray
  let start := Search.start w.signals.size clauses.size
  let start := clauses.zipIdx.foldl (fun s (clause, number) => s.add number clause) start
  match start.run limit with
  | (s, .refuted) =>
    if refutes : Deduction.refutes clauses s.deductions.toList = true then
      .refuted (never_of_refutes refutes)
    else .undecided
  | (s, .satisfied) =>
    .satisfied fun input =>
      (w.numbers[input]?).any fun p => s.assignment.isTrue (Literal.positive p)
  | (_, .undecided) => .undecided

end Window

end CExpr
