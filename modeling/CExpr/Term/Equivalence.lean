import CExpr.Builtin
import CExpr.Term.Bits
import CExpr.Term.Fact
import CExpr.Term.Trial

/-!
Equivalence of terms: the same value for all values of the variables. Two terms are equivalent when
the equation between them is valid. Its normal form may be constant, or some sample may make it
false. If neither settles the question, a search in its circuit does. The products and quotients
that make large circuits are inputs of their own at first, of which nothing is known, then inputs of
which some facts are known, and are worked out only if that is not enough. The last resort is to try
all values.
-/
namespace CExpr

namespace Term

/-- For every bit of every input, lowest rank first, its values in all samples as one word. -/
def patterns (inputs : List Term) (samples : List Sample) : List Nat :=
  let values := inputs.map fun input => samples.map fun sample => input.eval sample.value
  let pattern (values : List Word) (bit : Nat) : Nat :=
    values.foldr (fun value sum => 2 * sum + (value.getLsbD bit).toNat) 0
  (List.range 64).flatMap fun bit => values.map (pattern · bit)

def sampleOf (inputs : List Term) (truth : Nat → Bool) : Sample :=
  inputs.zipIdx.filterMap fun (input, index) =>
    match input with
    | symbol name =>
      let bits := (List.range 64).map fun bit => truth (bit * inputs.length + index)
      some (name, bits.foldr (fun bit value => 2 * value + Word.ofBool bit) 0)
    | _ => none

/-- Whether assumptions are met anywhere, as far as a limited search tells. -/
inductive Verdict
  | never
  | at (sample : Sample)
  | unknown

def search (samples : List Sample) (limit : Nat) (facts : List Term) (whole : Term → Bool)
    (a : Assumptions) : Verdict :=
  let all := (facts ++ a.terms).foldl (binary .logicalAnd) (word 1)
  let inputs := all.inputs whole
  let store := Signal.Store.start samples.length (patterns inputs samples)
  let (goal, store) := (do (← all.bits inputs 1).any).run store
  if goal = .fixed false then .never else
    match Window.search store.furtherAt (2 ^ 40) limit [[goal]] with
    | .refuted _ => .never
    | .satisfied truth => .at (a.complete (sampleOf inputs truth))
    | .undecided => .unknown

def tryAll (a : Assumptions) : Verdict :=
  if (a.varied.map fun v => v.bits.length).sum ≤ 17 then
    match a.sample? with
    | some sample => .at (a.complete sample)
    | none => .never
  else .unknown

def holdsAt (term : Term) (sample : Sample) : Bool := term.eval sample.value != 0

/-- The answer of the first attempt that finds one, or of a trial of all values. -/
def isValidBy (term : Term) : List (Unit → Verdict) → Bool
  | [] => (Assumptions.sample? ⟨[unary .logicalNot term], []⟩).isNone
  | attempt :: rest =>
    match attempt () with
    | .never => true
    | .at sample => term.holdsAt sample && term.isValidBy rest
    | .unknown => term.isValidBy rest

def isValid (term : Term) : Bool :=
  let reduced := term.normal
  let names := term.names
  let words := notable (term.constants ++ reduced.constants).eraseDups
  let samples (count : Nat) := (List.range count).map (Sample.ofNotable names words)
  reduced = word 1 ||
    (samples (min 8192 (words.length ^ names.length))).all term.holdsAt &&
      let samples := (List.range 1024).map (Sample.ofNumber names) ++ samples 1024
      let plain := Assumptions.ofZero id term
      let normal := Assumptions.ofZero normal reduced
      let facts := (normal.terms.flatMap facts).eraseDups
      term.isValidBy [
        fun _ => tryAll normal,
        fun _ => search samples 2000 [] isHeavy normal,
        fun _ => search samples 2000 facts isHeavy normal,
        fun _ => search samples 2000 [] (fun _ => false) plain,
        fun _ => search samples 20000 facts isHeavy normal,
        fun _ => search samples (2 ^ 60) [] (fun _ => false) normal]

def equivalent (a b : Term) : Bool := a = b || (binary .eq a b).isValid

end Term

/-- Whether two expressions mean the same; of two that hold doubles the first one is reported. -/
def Expr.equivalent (a b : Expr) : Except NoWord Bool :=
  match a.lower [] with
  | (.error e, _) => .error e
  | (.ok left, symbols) =>
    match b.lower symbols with
    | (.error e, _) => .error e
    | (.ok right, _) => .ok (left.equivalent right)

end CExpr
