import CExpr.Builtin
import CExpr.Circuit.Window
import Std.Data.DHashMap

/-!
The store in which circuits are built. It remembers every gate, so that a gate asked for twice is
one object, and it knows what every signal is for some samples of the inputs. Where these do not
tell two signals apart, a search in a small window tries to show that they are the same, and then
one of them stands for both. What the store remembers carries the proof of what it is; it therefore
needs no invariant of its own, and what is built means the same whatever the store held before.
-/
namespace CExpr

namespace Signal

structure Chosen (condition yes no : Signal) where
  signal : Signal
  eval_eq (inputs : Nat → Bool) : signal.eval inputs =
    if condition.eval inputs then yes.eval inputs else no.eval inputs

structure GateKey where
  condition : Signal
  yes : Signal
  no : Signal
  deriving DecidableEq, Hashable

structure Store where
  samples : Nat
  /-- By input number or mark, a word with one bit for what a signal is in each sample. -/
  patterns : Array Nat
  shared : Std.DHashMap GateKey fun key => Chosen key.condition key.yes key.no
  /-- Different signals by their pattern, either themselves or negated so that the first sample
  makes them false. -/
  alike : Std.HashMap Nat (List Signal)
  /-- Other definitions of signals, by the largest number of an operand. -/
  further : Std.HashMap Nat (List Definition)
  /-- How many more vain searches are worth trying. -/
  patience : Nat

abbrev Build := StateM Store

namespace Store

def turn (store : Store) (pattern : Nat) : Nat := (2 ^ store.samples - 1) ^^^ pattern

def pattern (store : Store) : Signal → Nat
  | fixed value => if value then 2 ^ store.samples - 1 else 0
  | negation operand => store.turn (store.patterns.getD operand.index 0)
  | signal => store.patterns.getD signal.index 0

def note (store : Store) (signal : Signal) (pattern : Nat) : Store :=
  let negated := pattern.testBit 0
  let code := if negated then store.turn pattern else pattern
  let leveled := if negated then signal.negate else signal
  { store with
    patterns := store.patterns.push pattern
    alike := store.alike.alter code fun known => some (known.getD [] ++ [leveled]) }

def furtherAt (store : Store) (index : Nat) : List Definition := store.further.getD index []

def addFurther (store : Store) (d : Definition) : Store :=
  let index := (d.operands.map index).foldl max 0
  { store with further := store.further.alter index fun known => some (d :: known.getD []) }

def start (samples : Nat) (inputs : List Nat) : Store :=
  let store : Store := ⟨samples, #[], ∅, .ofList [(0, [fixed false])], ∅, 1000⟩
  inputs.zipIdx.foldl (fun store (pattern, index) => store.note (input index) pattern) store

end Store

structure Same (signal : Signal) where
  other : Signal
  eval_eq (inputs : Nat → Bool) : other.eval inputs = signal.eval inputs

theorem eval_eq_of_never {a b : Signal} (inputs : Nat → Bool)
    (never : ∃ goal ∈ [[a, b], [a.negate, b.negate]], goal.any (eval inputs) = false) :
    b.eval inputs = a.eval inputs := by
  simp only [List.mem_cons, List.not_mem_nil, or_false, exists_eq_or_imp, exists_eq_left,
    List.any_cons, List.any_nil, eval_negate] at never
  revert never
  cases a.eval inputs <;> cases b.eval inputs <;> simp

def Same.turned {negated : Bool} {signal : Signal}
    (same : Same (if negated then signal.negate else signal)) : Same signal :=
  match negated, same with
  | true, ⟨other, eval_eq⟩ => ⟨other.negate, fun inputs => by
      rw [eval_negate, eval_eq, if_pos rfl, eval_negate, Bool.not_not]⟩
  | false, ⟨other, eval_eq⟩ => ⟨other, eval_eq⟩

def same? (further : Nat → List Definition) (signal : Signal) : List Signal → Option (Same signal)
  | [] => none
  | other :: rest =>
    match Window.search further 100 50 [[signal, other], [signal.negate, other.negate]] with
    | .refuted never => some ⟨other, fun inputs => eval_eq_of_never inputs (never inputs)⟩
    | _ => same? further signal rest

def gate (condition yes no : Signal) : Build (Chosen condition yes no) := fun store =>
  match store.shared.get? ⟨condition, yes, no⟩ with
  | some known => (known, store)
  | none =>
    let signal := choice store.patterns.size condition yes no
    let chosen := store.pattern condition
    let pattern := chosen &&& store.pattern yes ||| store.turn chosen &&& store.pattern no
    let negated := pattern.testBit 0
    let code := if negated then store.turn pattern else pattern
    let candidates := if store.patience = 0 then [] else (store.alike.getD code []).take 2
    match same? store.furtherAt (if negated then signal.negate else signal) candidates with
    | some same =>
      let same := same.turned
      let known : Chosen condition yes no := ⟨same.other, same.eval_eq⟩
      let store := store.addFurther ⟨condition, yes, no, known.signal, known.eval_eq⟩
      (known, { store with shared := store.shared.insert ⟨condition, yes, no⟩ known })
    | none =>
      let known : Chosen condition yes no := ⟨signal, fun _ => rfl⟩
      let store := store.note signal pattern
      (known, { store with
        shared := store.shared.insert ⟨condition, yes, no⟩ known
        patience := store.patience - candidates.length })

/-- How a choice is drawn: as a signal at hand, or as a gate, whose signal may have to be negated. -/
inductive Drawing
  | known (signal : Signal)
  | drawn (negated : Bool) (condition yes no : Signal)

namespace Drawing

def negate : Drawing → Drawing
  | known signal => known signal.negate
  | drawn negated condition yes no => drawn (!negated) condition yes no

def byEither (condition yes no : Signal) : Drawing :=
  match condition with
  | negation operand => drawn false operand no yes
  | _ => drawn false condition yes no

def both (a b : Signal) : Drawing :=
  if b.index < a.index then byEither b a (fixed false) else byEither a b (fixed false)

def differ (a b : Signal) : Drawing :=
  if b.index < a.index then drawn false b a.negate a else drawn false a b.negate b

def ofDifferent (condition yes no : Signal) : Drawing :=
  match yes, no with
  | fixed true, fixed _ => known condition
  | fixed false, fixed _ => known condition.negate
  | fixed false, no => both condition.negate no
  | fixed true, no => (both condition.negate no.negate).negate
  | yes, fixed false => both condition yes
  | yes, fixed true => (both condition yes.negate).negate
  | negation yes, no =>
    if yes = no then differ condition yes else drawn true condition yes no.negate
  | yes, no => if yes.negate = no then (differ condition yes).negate else drawn false condition yes no

/-- A choice by a signal that is neither fixed nor a negation. Where it is chosen the condition is
true, and elsewhere false. -/
def ofPlain (condition yes no : Signal) : Drawing :=
  let yes := if yes = condition then fixed true else if yes = condition.negate then fixed false else yes
  let no := if no = condition then fixed false else if no = condition.negate then fixed true else no
  if yes = no then known yes else ofDifferent condition yes no

def ofChoice (condition yes no : Signal) : Drawing :=
  match condition with
  | fixed value => known (if value then yes else no)
  | negation operand => ofPlain operand no yes
  | condition => ofPlain condition yes no

end Drawing

def select (condition yes no : Signal) : Build Signal := do
  match Drawing.ofChoice condition yes no with
  | .known signal => return signal
  | .drawn negated condition yes no =>
    let signal := (← gate condition yes no).signal
    return if negated then signal.negate else signal

end Signal

end CExpr
