/-!
Clauses: disjunctions of numbered propositions and their negations. A literal is written as one
number, twice that of its proposition, and one more if it is negated.

The truth values known at a moment of a search come with the order in which they became known and why,
and an agenda says which proposition to decide next.
-/
namespace CExpr

abbrev Literal := Nat

namespace Literal

def positive (proposition : Nat) : Literal := 2 * proposition

def proposition (literal : Literal) : Nat := literal / 2

def negate (literal : Literal) : Literal := literal ^^^ 1

def eval (truth : Nat → Bool) (literal : Literal) : Bool :=
  truth literal.proposition ^^ literal.testBit 0

theorem eval_positive (truth : Nat → Bool) (p : Nat) : (positive p).eval truth = truth p := by
  simp [eval, positive, proposition]

theorem eval_negate (truth : Nat → Bool) (l : Literal) : l.negate.eval truth = !l.eval truth := by
  have flips : Nat.testBit (l ^^^ 1) 0 = !Nat.testBit l 0 := by
    rw [Nat.testBit_xor, Nat.testBit_one_zero, Bool.xor_true]
  simp only [eval, negate, flips, proposition, Nat.xor_div_two, Nat.reduceDiv, Nat.xor_zero,
    Bool.xor_not]

end Literal

abbrev Clause := List Literal

def Clause.eval (truth : Nat → Bool) (clause : Clause) : Bool :=
  clause.any (Literal.eval truth)

structure Assignment where
  /-- By literal: 0 while it is open, 1 if it is true, 2 if it is false. -/
  values : Array Nat
  /-- The true literals in the order in which they became true. -/
  trail : Array Literal
  /-- By proposition, the place of the clause that it follows from, or zero. -/
  reasons : Array Nat
  /-- By proposition, its place on the trail. -/
  places : Array Nat
  /-- By proposition, the number of decisions made before it became known. -/
  levels : Array Nat

namespace Assignment

def start (count : Nat) : Assignment where
  values := .replicate (2 * count) 0
  trail := #[]
  reasons := .replicate count 0
  places := .replicate count 0
  levels := .replicate count 0

def value (a : Assignment) (l : Literal) : Nat := a.values.getD l 0

def isOpen (a : Assignment) (l : Literal) : Bool := a.value l == 0

def isTrue (a : Assignment) (l : Literal) : Bool := a.value l == 1

def isFalse (a : Assignment) (l : Literal) : Bool := a.value l == 2

def reason (a : Assignment) (l : Literal) : Nat := a.reasons.getD l.proposition 0

def place (a : Assignment) (l : Literal) : Nat := a.places.getD l.proposition 0

def level (a : Assignment) (l : Literal) : Nat := a.levels.getD l.proposition 0

def assign (a : Assignment) (l : Literal) (reason level : Nat) : Assignment :=
  match a with
  | ⟨values, trail, reasons, places, levels⟩ =>
    let p := l.proposition
    let place := trail.size
    ⟨(values.setIfInBounds l 1).setIfInBounds l.negate 2, trail.push l,
      reasons.setIfInBounds p reason, places.setIfInBounds p place, levels.setIfInBounds p level⟩

def retract (a : Assignment) (l : Literal) : Assignment :=
  match a with
  | ⟨values, trail, reasons, places, levels⟩ =>
    ⟨(values.setIfInBounds l 0).setIfInBounds l.negate 0, trail.pop, reasons, places, levels⟩

end Assignment

/-- The propositions in the order in which they mattered last, linked in both directions. -/
structure Agenda where
  older : Array Nat
  /-- Of the newest one it does not count. -/
  newer : Array Nat
  /-- By proposition, when it mattered last. -/
  stamps : Array Nat
  newest : Nat
  /-- All propositions newer than this one are known. -/
  cursor : Nat
  clock : Nat

namespace Agenda

def start (count : Nat) : Agenda where
  older := .ofFn fun p : Fin count => if p.val = 0 then count else p.val - 1
  newer := .ofFn fun p : Fin count => p.val + 1
  stamps := .ofFn fun p : Fin count => p.val + 1
  newest := count - 1
  cursor := count - 1
  clock := count

def stamp (agenda : Agenda) (p : Nat) : Nat := agenda.stamps.getD p 0

def renew (agenda : Agenda) (p : Nat) (isOpen : Bool) : Agenda :=
  match agenda with
  | ⟨older, newer, stamps, newest, cursor, clock⟩ =>
    if newest = p then ⟨older, newer, stamps, newest, cursor, clock⟩ else
      let before := older.getD p 0
      let after := newer.getD p 0
      ⟨(older.setIfInBounds after before).setIfInBounds p newest,
        (newer.setIfInBounds before after).setIfInBounds newest p,
        stamps.setIfInBounds p (clock + 1), p, if isOpen then p else cursor, clock + 1⟩

def reopen (agenda : Agenda) (p : Nat) : Agenda :=
  if agenda.stamp agenda.cursor < agenda.stamp p then { agenda with cursor := p } else agenda

def advance (agenda : Agenda) (values : Array Nat) : (fuel : Nat) → Agenda
  | 0 => agenda
  | fuel + 1 =>
    if agenda.cursor < agenda.older.size && values.getD (Literal.positive agenda.cursor) 0 != 0 then
      advance { agenda with cursor := agenda.older.getD agenda.cursor 0 } values fuel
    else agenda

end Agenda

end CExpr
