import CExpr.Builtin
import CExpr.Clause.Assignment
import CExpr.Clause.Refutation

/-!
The search for truth values that satisfy clauses, or for a refutation of them. Literals are decided
one after the other, and what follows from them is propagated. A contradiction teaches a new clause,
after which the search goes on from the last decision that the clause leaves standing.
-/
namespace CExpr

/-- A search in progress. Clauses lie one behind the other in `arena`, each as its number, its
length and its literals, of which the first two are watched. -/
structure Search where
  arena : Array Nat
  /-- By literal, the places of the clauses that watch it, each with another literal of the clause. -/
  watchers : Array (Array Nat)
  assignment : Assignment
  agenda : Agenda
  /-- By proposition, the literal that was true last. -/
  phases : Array Literal
  /-- How many of the trail have been propagated. -/
  propagated : Nat
  /-- How many of the trail have a clause of their own. -/
  settled : Nat
  /-- By proposition, the number of the clause that says its value, which needs no decision. -/
  units : Array Nat
  /-- The lengths of the trail before each decision. -/
  limits : Array Nat
  deductions : Array Deduction
  nextNumber : Nat
  /-- The places of the deduced clauses, each with the number of levels in it. -/
  learned : Array (Nat × Nat)
  conflicts : Nat
  refuted : Bool

namespace Search

def start (count clauses : Nat) : Search where
  arena := #[0]
  watchers := .replicate (2 * count) #[]
  assignment := .start count
  agenda := .start count
  phases := .ofFn fun p : Fin count => (Literal.positive p).negate
  propagated := 0
  settled := 0
  units := .replicate count 0
  limits := #[]
  deductions := #[]
  nextNumber := clauses
  learned := #[]
  conflicts := 0
  refuted := false

def level (s : Search) : Nat := s.limits.size

def number (s : Search) (place : Nat) : Nat := s.arena.getD place 0

def literals (s : Search) (place : Nat) : Array Literal :=
  s.arena.extract (place + 2) (place + 2 + s.arena.getD (place + 1) 0)

def assign (s : Search) (l : Literal) (reason : Nat) : Search :=
  let level := s.limits.size
  { s with assignment := s.assignment.assign l reason level }

def decide (s : Search) (l : Literal) : Search :=
  let size := s.assignment.trail.size
  let level := s.limits.size + 1
  { s with
    limits := s.limits.push size
    assignment := s.assignment.assign l 0 level }

def notFalse? (arena values : Array Nat) (place : Nat) : (count : Nat) → Option Nat
  | 0 => none
  | count + 1 =>
    if values.getD (arena.getD place 0) 0 != 2 then some place
    else notFalse? arena values (place + 1) count

structure Visit where
  arena : Array Nat
  watchers : Array (Array Nat)
  assignment : Assignment
  /-- The clauses that go on to watch the literal. -/
  kept : Array Nat
  /-- The place of a clause that is false as a whole, or zero. -/
  conflict : Nat

def moveDown (entries : Array Nat) (read write : Nat) : (count : Nat) → Array Nat
  | 0 => entries.take write
  | count + 1 =>
    let place := entries.getD read 0
    let other := entries.getD (read + 1) 0
    moveDown ((entries.setIfInBounds write place).setIfInBounds (write + 1) other)
      (read + 2) (write + 2) count

/-- Look at the clauses that watch a literal which has become false. A clause with another literal
that is not false watches that instead, unless one is true anyway. If all others are false but one,
that one follows. -/
def visit (l : Literal) (level : Nat) (arena : Array Nat) (watchers : Array (Array Nat))
    (assignment : Assignment) (entries : Array Nat) (read write : Nat) : (count : Nat) → Visit
  | 0 => ⟨arena, watchers, assignment, entries.take write, 0⟩
  | count + 1 =>
    let place := entries.getD read 0
    let other := entries.getD (read + 1) 0
    if assignment.isTrue other then
      visit l level arena watchers assignment
        ((entries.setIfInBounds write place).setIfInBounds (write + 1) other)
        (read + 2) (write + 2) count
    else
      let size := arena.getD (place + 1) 0
      if size = 0 then
        visit l level arena watchers assignment entries (read + 2) write count
      else
        let first := arena.getD (place + 2) 0 ^^^ arena.getD (place + 3) 0 ^^^ l
        if assignment.isTrue first then
          visit l level arena watchers assignment
            ((entries.setIfInBounds write place).setIfInBounds (write + 1) first)
            (read + 2) (write + 2) count
        else
          match notFalse? arena assignment.values (place + 4) (size - 2) with
          | some found =>
            let next := arena.getD found 0
            visit l level
              (((arena.setIfInBounds (place + 2) first).setIfInBounds (place + 3) next).setIfInBounds
                found l)
              (watchers.modify next fun entries => (entries.push place).push first)
              assignment entries (read + 2) write count
          | none =>
            if assignment.isFalse first then
              ⟨arena, watchers, assignment, moveDown entries read write (count + 1), place⟩
            else
              visit l level arena watchers (assignment.assign first place level)
                ((entries.setIfInBounds write place).setIfInBounds (write + 1) first)
                (read + 2) (write + 2) count

def propagate (s : Search) : (fuel : Nat) → Search × Nat
  | 0 => (s, 0)
  | fuel + 1 =>
    if s.propagated < s.assignment.trail.size then
      let l := (s.assignment.trail.getD s.propagated 0).negate
      let entries := s.watchers.getD l #[]
      let level := s.limits.size
      match s with
      | { arena, watchers, assignment, agenda, phases, propagated, settled, units, limits, deductions,
          nextNumber, learned, conflicts, refuted } =>
        match visit l level arena (watchers.setIfInBounds l #[]) assignment entries 0 0
            (entries.size / 2) with
        | ⟨arena, watchers, assignment, kept, conflict⟩ =>
          let s : Search :=
            { arena, watchers := watchers.setIfInBounds l kept, assignment, agenda, phases,
              propagated := propagated + 1, settled, units, limits, deductions, nextNumber, learned,
              conflicts, refuted }
          if conflict = 0 then propagate s fuel else (s, conflict)
    else (s, 0)

def attach (s : Search) (number : Nat) (clause : Array Literal) : Search :=
  let place := s.arena.size
  let first := clause.getD 0 0
  let second := clause.getD 1 0
  let arena := ((s.arena.push number).push clause.size) ++ clause
  if clause.size < 2 then { s with arena } else
    let watchers := s.watchers.modify first fun entries => (entries.push place).push second
    { s with arena, watchers := watchers.modify second fun entries => (entries.push place).push first }

def deduce (s : Search) (clause : Array Literal) (premises : List Nat) : Search :=
  { s with
    deductions := s.deductions.push ⟨clause.toList, premises⟩
    nextNumber := s.nextNumber + 1 }

def unit (s : Search) (l : Literal) : Nat := s.units.getD l.proposition 0

def settleAt (s : Search) (l : Literal) : Search :=
  let place := s.assignment.reason l
  let clause := s.literals place
  let number := s.number place
  if clause.size = 1 then { s with units := s.units.setIfInBounds l.proposition number }
  else
    let premises := (clause.toList.filter (· ≠ l)).map s.unit ++ [number]
    let own := s.nextNumber
    { s.deduce #[l] premises with units := s.units.setIfInBounds l.proposition own }

def settle (s : Search) : Search :=
  let size := s.assignment.trail.size
  let s := (s.assignment.trail.extract s.settled size).foldl settleAt s
  { s with settled := size }

def refute (s : Search) (place : Nat) : Search :=
  let s := s.settle
  let premises := (s.literals place).toList.map s.unit ++ [s.number place]
  { s.deduce #[] premises with refuted := true }

def propagateUnits (s : Search) : Search :=
  if s.refuted then s else
    let (s, place) := s.propagate s.units.size
    if place = 0 then s.settle else s.refute place

def add (s : Search) (number : Nat) (clause : Clause) : Search :=
  if s.refuted then s else
    let (false_, others) := clause.partition s.assignment.isFalse
    let place := s.arena.size
    let s := s.attach number (others ++ false_).toArray
    match others with
    | [] => s.refute place
    | [l] => if s.assignment.isOpen l then s.assign l place else s
    | _ => s

def forget (s : Search) : (count : Nat) → Search
  | 0 => s
  | count + 1 =>
    match s with
    | { arena, watchers, assignment, agenda, phases, propagated, settled, units, limits, deductions,
        nextNumber, learned, conflicts, refuted } =>
      let l := assignment.trail.back?.getD 0
      forget
        { arena, watchers, assignment := assignment.retract l, agenda := agenda.reopen l.proposition,
          phases := phases.setIfInBounds l.proposition l, propagated, settled, units, limits,
          deductions, nextNumber, learned, conflicts, refuted } count

def backtrack (s : Search) (level : Nat) : Search :=
  if level < s.level then
    let size := s.limits.getD level 0
    let s := s.forget (s.assignment.trail.size - size)
    { s with limits := s.limits.take level, propagated := size }
  else s

structure Analysis where
  /-- By proposition, whether it has been met. -/
  marks : Array Bool
  met : List Nat
  /-- The numbers of the clauses that say what is known without a decision. -/
  units : List Nat
  /-- The numbers of the clauses gathered from, the last one first. -/
  premises : List Nat
  /-- The literals met that were known before the last decision. -/
  lower : List Literal
  /-- The number of literals met that are not resolved yet. -/
  pending : Nat

namespace Analysis

def meet (s : Search) (a : Analysis) (l : Literal) : Analysis :=
  let p := l.proposition
  if a.marks.getD p false then a else
    let level := s.assignment.level l
    match a with
    | ⟨marks, met, units, premises, lower, pending⟩ =>
      let marks := marks.setIfInBounds p true
      if level = 0 then ⟨marks, met, s.unit l :: units, premises, lower, pending⟩
      else if level = s.level then ⟨marks, p :: met, units, premises, lower, pending + 1⟩
      else ⟨marks, p :: met, units, premises, l :: lower, pending⟩

def meetAll (s : Search) (a : Analysis) (place : Nat) : (count : Nat) → Analysis
  | 0 => a
  | count + 1 => meetAll s (a.meet s (s.arena.getD place 0)) (place + 1) count

def gather (s : Search) (a : Analysis) (place : Nat) : Analysis :=
  let a := { a with premises := s.number place :: a.premises }
  a.meetAll s (place + 2) (s.arena.getD (place + 1) 0)

/-- Go back over the trail and gather from the reasons of the literals met, until one that the last
decision made true is left. -/
def resolve (s : Search) (a : Analysis) : (size : Nat) → Analysis × Literal
  | 0 => (a, 0)
  | size + 1 =>
    let l := s.assignment.trail.getD size 0
    if a.marks.getD l.proposition false then
      if a.pending ≤ 1 then (a, l)
      else
        let a := { a with pending := a.pending - 1 }
        resolve s (a.gather s (s.assignment.reason l)) size
    else resolve s a size

def isImplied (s : Search) (a : Analysis) (l : Literal) : Bool :=
  let reason := s.assignment.reason l
  reason != 0 && (s.literals reason).all fun m =>
    a.marks.getD m.proposition false || s.assignment.level m == 0

end Analysis

structure Lesson where
  /-- The clause, its newest literal first, then one of the level to go back to. -/
  clause : Array Literal
  premises : List Nat
  met : List Nat
  back : Nat
  breadth : Nat

def analyse (s : Search) (conflict : Nat) : Lesson :=
  let start : Analysis := ⟨.replicate s.units.size false, [], [], [], [], 0⟩
  let (a, newest) := (start.gather s conflict).resolve s s.assignment.trail.size
  let (implied, kept) := a.lower.partition (a.isImplied s)
  let ordered := implied.mergeSort fun l m => s.assignment.place l ≤ s.assignment.place m
  let reasons := ordered.map s.assignment.reason
  let chain := reasons.map s.number ++ a.premises
  let a := reasons.foldl (Analysis.gather s) a
  let levels := kept.map s.assignment.level
  let back := levels.foldl max 0
  let (last, before) := kept.partition fun l => s.assignment.level l = back
  ⟨(newest.negate :: last ++ before).toArray, a.units ++ chain, a.met, back,
    levels.eraseDups.length + 1⟩

def learn (s : Search) (conflict : Nat) : Search :=
  if s.level = 0 then s.refute conflict else
    let lesson := s.analyse conflict
    let met := lesson.met.mergeSort fun p q => s.agenda.stamp p ≤ s.agenda.stamp q
    let s := { s with agenda := met.foldl (fun agenda p => agenda.renew p false) s.agenda }
    let s := s.backtrack lesson.back
    let number := s.nextNumber
    let place := s.arena.size
    let s := (s.deduce lesson.clause lesson.premises).attach number lesson.clause
    let s := s.assign (lesson.clause.getD 0 0) place
    let learned :=
      if lesson.clause.size > 2 then s.learned.push (place, lesson.breadth) else s.learned
    { s with conflicts := s.conflicts + 1, learned }

/-- Forget half of the learned clauses, those with the most levels, while nothing is decided. -/
def reduce (s : Search) : Search :=
  let (few, many) := s.learned.toList.partition fun (_, breadth) => breadth ≤ 2
  let ordered := many.mergeSort fun (_, b) (_, c) => b ≤ c
  let half := ordered.length / 2
  let arena := (ordered.drop half).foldl (fun arena (place, _) => arena.setIfInBounds (place + 1) 0)
    s.arena
  { s with arena, learned := (few ++ ordered.take half).toArray }

def decideNext (s : Search) : Search × Bool :=
  let agenda := s.agenda.advance s.assignment.values s.units.size
  let p := agenda.cursor
  let phase := s.phases.getD p 0
  let s := { s with agenda }
  if p < s.units.size then (s.decide phase, true) else (s, false)

/-- How long to search before starting anew: 1 1 2 1 1 2 4 1 1 2 1 1 2 4 8 … times a constant. -/
def patience (n : Nat) : (fuel : Nat) → Nat
  | 0 => 1
  | fuel + 1 =>
    let k := Nat.log2 (n + 1)
    if n + 1 = 2 ^ k then 2 ^ (k - 1) else patience (n + 1 - 2 ^ k) fuel

inductive Outcome
  | refuted
  | satisfied
  | undecided

def run (s : Search) (limit : Nat) : Search × Outcome :=
  go s.propagateUnits (s.conflicts + limit) (s.conflicts + 20) (s.conflicts + 2000) 1 (2 ^ 62)
where
  go (s : Search) (stop restart reduction restarts : Nat) : (fuel : Nat) → Search × Outcome
    | 0 => (s, .undecided)
    | fuel + 1 =>
      if s.refuted then (s, .refuted)
      else
        match s.propagate s.units.size with
        | (s, 0) =>
          if s.conflicts ≥ stop then (s.backtrack 0, .undecided)
          else if s.conflicts ≥ restart then
            let s := s.backtrack 0
            let restart := s.conflicts + 20 * patience (restarts + 1) 64
            if s.conflicts ≥ reduction then
              go s.reduce stop restart (s.conflicts + 2000) (restarts + 1) fuel
            else go s stop restart reduction (restarts + 1) fuel
          else
            match s.decideNext with
            | (s, true) => go s stop restart reduction restarts fuel
            | (s, false) => (s, .satisfied)
        | (s, conflict) =>
          let s := s.learn conflict
          let s := if s.level = 0 then s.propagateUnits else s
          go s stop restart reduction restarts fuel

end Search

end CExpr
