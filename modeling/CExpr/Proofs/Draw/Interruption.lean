import CExpr.Draw.Sources
import CExpr.Draw.Uniform
import CExpr.Proofs.Outcome

/-!
Draws that are broken off. A draw makes certain calls, which a trace tells, and all that it does to the
source is what these calls do. With a grant it goes as without one if the grant covers the calls, and
otherwise it breaks off, with the source as the calls that the grant covers leave it.
-/
namespace CExpr

namespace Draw

variable {σ α β : Type} {s middle : σ} {x : Draw σ α} {f : α → Draw σ β}

theorem bind_of_ok {a : α} (ran : x s = (.ok a, middle)) : (x >>= f) s = f a middle := by
  change Draw.bind x f s = _
  rw [Draw.bind, ran]

theorem bind_of_error {e : DrawError} (failed : x s = (.error e, middle)) :
    (x >>= f) s = (.error e, middle) := by
  change Draw.bind x f s = _
  rw [Draw.bind, failed]

def IsPatient (draw : Draw σ α) : Prop := ∀ s, (draw s).1 ≠ .error .interrupted

namespace IsPatient

theorem ok {step : σ → α × σ} : IsPatient (fun s => (.ok (step s).1, (step s).2)) :=
  fun _ => nofun

theorem pure (a : α) : IsPatient (Pure.pure a : Draw σ α) := fun _ => nofun

theorem fail {e : DrawError} (other : e ≠ .interrupted) : IsPatient (Draw.fail e : Draw σ α) :=
  fun _ same => other (Except.error.inj same)

theorem bind (first : IsPatient x) (second : ∀ a, IsPatient (f a)) : IsPatient (x >>= f) := by
  intro s
  cases ran : x s with | mk result middle => ?_
  cases result with
  | ok a =>
      rw [bind_of_ok ran]
      exact second a middle
  | error e =>
      have apart := first s
      rw [ran] at apart
      rw [bind_of_error ran]
      exact fun same => apart (congrArg Except.error (Except.error.inj same))

end IsPatient
end Draw

namespace Source

variable {σ α : Type}

def make (source : Source σ) : DrawCall → σ → σ
  | .choice weights, s => (source.choice weights s).2
  | .bit mask, s => (source.bit mask s).2
  | .integer lo hi, s => (source.integer lo hi s).2
  | .real lo hi, s => (source.real lo hi s).2
  | .coin probability, s => (source.coin probability s).2

def redo (source : Source σ) (calls : List DrawCall) (s : σ) : σ :=
  calls.foldl (fun s call => source.make call s) s

theorem redo_append (source : Source σ) (first second : List DrawCall) (s : σ) :
    source.redo (first ++ second) s = source.redo second (source.redo first s) :=
  List.foldl_append

structure Patient (source : Source σ) : Prop where
  choice (weights : List Double) : (source.choice weights).IsPatient
  bit (mask : Mask) : (source.bit mask).IsPatient
  integer (lo hi : Int) : (source.integer lo hi).IsPatient
  real (lo hi : Double) : (source.real lo hi).IsPatient
  coin (probability : Double) : (source.coin probability).IsPatient

end Source

/-- From a state a draw makes these calls, in a trace as well, and they are all that it does to the
source. A grant that covers them is not noticed, another one ends the draw behind the calls that it
covers. -/
structure Makes {σ α : Type} (source : Source σ) (s : σ) (calls : List DrawCall) (plain : Draw σ α)
    (traced : Draw (σ × List DrawCall) α) (limited : Draw (σ × Nat) α) : Prop where
  patient : (plain s).1 ≠ .error .interrupted
  told : ∀ before, traced (s, before) = ((plain s).1, (plain s).2, before ++ calls)
  redone : source.redo calls s = (plain s).2
  covered : ∀ left, limited (s, calls.length + left) = ((plain s).1, (plain s).2, left)
  cut : ∀ left, left < calls.length →
    limited (s, left) = (.error .interrupted, source.redo (calls.take left) s, 0)

def Interruptible {σ α : Type} (source : Source σ) (plain : Draw σ α)
    (traced : Draw (σ × List DrawCall) α) (limited : Draw (σ × Nat) α) : Prop :=
  ∀ s, ∃ calls, Makes source s calls plain traced limited

namespace Interruptible

variable {σ α β : Type} {source : Source σ}

theorem still {result : Except DrawError α} (ended : result ≠ .error .interrupted) :
    Interruptible source (fun s => (result, s)) (fun s => (result, s)) (fun s => (result, s)) := by
  intro s
  refine ⟨[], ended, fun before => ?_, rfl, fun left => ?_, fun left less => ?_⟩
  · rw [List.append_nil]
  · rw [List.length_nil, Nat.zero_add]
  · exact absurd less (Nat.not_lt_zero left)

theorem pure (a : α) : Interruptible source (Pure.pure a) (Pure.pure a) (Pure.pure a) :=
  still (nofun : (Except.ok a : Except DrawError α) ≠ .error .interrupted)

theorem ofExcept {result : Except DrawError α} (ended : result ≠ .error .interrupted) :
    Interruptible source (Draw.ofExcept result) (Draw.ofExcept result) (Draw.ofExcept result) := by
  cases result with
  | ok a => exact pure a
  | error e => exact still ended

/-- What the second draw calls comes behind what the first one has called, and if the grant ends within
the first one there is no second one. -/
theorem bind {x : Draw σ α} {x' : Draw (σ × List DrawCall) α} {x'' : Draw (σ × Nat) α}
    {f : α → Draw σ β} {f' : α → Draw (σ × List DrawCall) β} {f'' : α → Draw (σ × Nat) β}
    (first : Interruptible source x x' x'')
    (second : ∀ a, Interruptible source (f a) (f' a) (f'' a)) :
    Interruptible source (x >>= f) (x' >>= f') (x'' >>= f'') := by
  intro s
  obtain ⟨calls, patient, told, redone, covered, cut⟩ := first s
  cases ran : x s with | mk result middle => ?_
  rw [ran] at patient told redone covered
  cases result with
  | error e =>
      have whole : (x >>= f) s = (.error e, middle) := Draw.bind_of_error ran
      refine ⟨calls, ?_, fun before => ?_, ?_, fun left => ?_, fun left less => ?_⟩
      · rw [whole]
        exact fun same => patient (congrArg Except.error (Except.error.inj same))
      · rw [whole]
        exact Draw.bind_of_error (told before)
      · rw [whole]
        exact redone
      · rw [whole]
        exact Draw.bind_of_error (covered left)
      · exact Draw.bind_of_error (cut left less)
  | ok a =>
      obtain ⟨more, later⟩ := second a middle
      have whole : (x >>= f) s = f a middle := Draw.bind_of_ok ran
      refine ⟨calls ++ more, ?_, fun before => ?_, ?_, fun left => ?_, fun left less => ?_⟩
      · rw [whole]
        exact later.patient
      · rw [whole, ← List.append_assoc, ← later.told]
        exact Draw.bind_of_ok (told before)
      · rw [whole, Source.redo_append, redone]
        exact later.redone
      · rw [whole, List.length_append, Nat.add_assoc, ← later.covered]
        exact Draw.bind_of_ok (covered (more.length + left))
      · rw [List.length_append] at less
        -- The grant ends in the first draw, or what the first draw leaves of it ends in the second.
        by_cases inside : left < calls.length
        · rw [List.take_append_of_le_length (Nat.le_of_lt inside)]
          exact Draw.bind_of_error (cut left inside)
        · obtain ⟨rest, rfl⟩ := Nat.exists_eq_add_of_le (Nat.not_lt.mp inside)
          rw [List.take_length_add_append, Source.redo_append, redone,
            ← later.cut rest (Nat.lt_of_add_lt_add_left less)]
          exact Draw.bind_of_ok (covered rest)

theorem called {draw : Draw σ α} (call : DrawCall) (makes : ∀ s, source.make call s = (draw s).2)
    (patient : draw.IsPatient) :
    Interruptible source draw (Source.recorded call draw) (Source.granted draw) := by
  intro s
  refine ⟨[call], patient s, fun _ => rfl, makes s, fun left => ?_, fun left less => ?_⟩
  · rw [List.length_singleton, Nat.add_comm]
    rfl
  -- Only a grant of nothing is too little for one call.
  · cases Nat.lt_one_iff.mp less
    rfl

theorem member (vocabulary : Vocabulary) (members : List α) (index : Int) :
    Interruptible source (Source.member vocabulary members index)
      (Source.member vocabulary members index) (Source.member vocabulary members index) := by
  unfold Source.member
  split
  · exact pure _
  · refine still ?_
    exact nofun

end Interruptible

namespace Source.Patient

variable {σ : Type} {source : Source σ}

theorem exprKind (patient : source.Patient) (weights : Weights) :
    Interruptible source (source.exprKind weights) (source.traced.exprKind weights)
      (source.limited.exprKind weights) :=
  (Interruptible.called (.choice weights.exprList) (fun _ => rfl) (patient.choice _)).bind
    (.member _ _)

theorem binOp (patient : source.Patient) (mask : Mask) :
    Interruptible source (source.binOp mask) (source.traced.binOp mask)
      (source.limited.binOp mask) :=
  (Interruptible.called (.bit mask) (fun _ => rfl) (patient.bit _)).bind (.member _ _)

theorem unOp (patient : source.Patient) (mask : Mask) :
    Interruptible source (source.unOp mask) (source.traced.unOp mask)
      (source.limited.unOp mask) :=
  (Interruptible.called (.bit mask) (fun _ => rfl) (patient.bit _)).bind (.member _ _)

end Source.Patient

namespace Engine

variable {σ : Type} (engine : Engine σ)

end Engine
end CExpr
