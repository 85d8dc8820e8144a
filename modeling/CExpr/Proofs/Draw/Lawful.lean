import CExpr.Config.Basic
import CExpr.Draw.Sources
import CExpr.Draw.Twister
import CExpr.Proofs.Draw.Choice
import CExpr.Proofs.Draw.Log
import CExpr.Proofs.Mask.Rank
import CExpr.Proofs.Weights.Slots

/-!
Which draws never fail. A call is legal if it asks for something that there is, and an engine is
lawful if its integers are where they are asked for. A source over a lawful engine answers every
legal call as it should be answered: with the index of a kind, a set bit, an integer within its
range. With a grant the source may also break off, and every answer takes something of the grant.
The twister is a lawful engine.
-/
namespace CExpr

/-- An engine whose integers are within the range asked for. Its other numbers may be any. -/
structure Engine.Lawful {σ : Type} (engine : Engine σ) : Prop where
  integer (s : σ) {lo hi : Int} (ordered : lo ≤ hi) :
    lo ≤ (engine.integer lo hi s).1 ∧ (engine.integer lo hi s).1 ≤ hi

namespace DrawEvent

/-- Five weights for a choice, none of them negative or no number and not all of them zero, a mask
that is not empty, a range that is not empty, a probability. -/
def IsLegal : DrawEvent → Prop
  | choice weights _ => weights.length = 5 ∧ (∀ weight ∈ weights, weight.isNonnegative = true) ∧
      (Double.sum weights).isPositive = true
  | bit mask _ => mask.isEmpty = false
  | integer lo hi _ => lo ≤ hi
  | real lo hi _ => lo.le hi = true
  | coin probability _ => Config.isProbability probability = true

def IsAnswered : DrawEvent → Prop
  | choice _ answer => ∃ kind : ExprKind, answer = .ok (kind.index.val : Int)
  | bit mask answer => ∃ index : Nat, answer = .ok (index : Int) ∧
      index < mask.vocabulary.width ∧ mask.test index = true
  | integer lo hi answer => ∃ value, answer = .ok value ∧ lo ≤ value ∧ value ≤ hi
  | real _ _ answer => ∃ value, answer = .ok value
  | coin _ answer => ∃ side, answer = .ok side

def IsBrokenOff : DrawEvent → Prop
  | choice _ answer => answer = .error .interrupted
  | bit _ answer => answer = .error .interrupted
  | integer _ _ answer => answer = .error .interrupted
  | real _ _ answer => answer = .error .interrupted
  | coin _ answer => answer = .error .interrupted

end DrawEvent

/-- A legal call is answered as it should be, which takes something of what is left, or the source
breaks off. -/
def Obliges {σ α : Type} (left : σ → Nat) (s : σ) (event : Except DrawError α → DrawEvent)
    (draw : Draw σ α) : Prop :=
  (∀ answer, (event answer).IsLegal) →
    (∃ a after, draw s = (.ok a, after) ∧ (event (.ok a)).IsAnswered ∧ left after < left s) ∨
      ∃ after, draw s = (.error .interrupted, after)

structure Source.Obliging {σ : Type} (source : Source σ) (left : σ → Nat) : Prop where
  choice (s : σ) (weights : List Double) : Obliges left s (.choice weights) (source.choice weights)
  bit (s : σ) (mask : Mask) : Obliges left s (.bit mask) (source.bit mask)
  integer (s : σ) (lo hi : Int) : Obliges left s (.integer lo hi) (source.integer lo hi)
  real (s : σ) (lo hi : Double) : Obliges left s (.real lo hi) (source.real lo hi)
  coin (s : σ) (probability : Double) :
    Obliges left s (.coin probability) (source.coin probability)

namespace Engine

variable {σ : Type} {engine : Engine σ}

def Answers (event : Except DrawError α → DrawEvent) (draw : Draw σ α) : Prop :=
  (∀ answer, (event answer).IsLegal) →
    ∀ s, ∃ a after, draw s = (.ok a, after) ∧ (event (.ok a)).IsAnswered

theorem choice_answers (weights : List Double) :
    Answers (.choice weights) (engine.source.choice weights) := by
  intro legal s
  obtain ⟨five, nonnegative, positive⟩ := legal (.ok 0)
  have nonempty : weights ≠ [] := by rintro rfl; cases five
  have bound := @indexAt_lt weights ((engine.unit s).1.mul (Double.sum weights)) nonempty
  obtain ⟨kind, same⟩ := ExprKind.exists_index (five ▸ bound)
  exact ⟨_, _, choice_of_isPositive nonnegative positive, kind, by rw [same]⟩

theorem bit_answers (lawful : engine.Lawful) (mask : Mask) :
    Answers (.bit mask) (engine.source.bit mask) := by
  intro legal s
  have nonempty : mask.isEmpty = false := legal (.ok 0)
  have count : (1 : Int) ≤ mask.count := Int.ofNat_le.mpr (Mask.count_pos nonempty)
  obtain ⟨least, most⟩ := lawful.integer s count
  obtain ⟨rank, drawn⟩ := Int.eq_ofNat_of_zero_le (Int.le_trans (by decide) least)
  rw [drawn] at least most
  obtain ⟨index, found⟩ := Mask.exists_select? (Int.ofNat_le.mp least) (Int.ofNat_le.mp most)
  obtain ⟨inside, isSet, _⟩ := Mask.select?_eq_some (Int.ofNat_le.mp least) found
  refine ⟨index, (engine.integer 1 mask.count s).2, ?_, index, rfl, inside, isSet⟩
  change Draw.bind (engine.pickBit mask) (fun index => pure (index : Int)) s = _
  unfold pickBit
  rw [if_neg (Bool.eq_false_iff.mp nonempty)]
  simp only [bind, Draw.bind, take, drawn, found]
  rfl

theorem integer_answers (lawful : engine.Lawful) (lo hi : Int) :
    Answers (.integer lo hi) (engine.source.integer lo hi) := by
  intro legal s
  have ordered : lo ≤ hi := legal (.ok 0)
  have whole : engine.source.integer lo hi = take (engine.integer lo hi) :=
    if_neg (Int.not_lt_of_ge ordered)
  rw [whole]
  exact ⟨_, _, rfl, _, rfl, lawful.integer s ordered⟩

theorem real_answers (lo hi : Double) : Answers (.real lo hi) (engine.source.real lo hi) := by
  intro legal s
  have ordered : lo.le hi = true := legal (.ok lo)
  have whole : engine.source.real lo hi = take (engine.real lo hi) :=
    if_neg (Bool.eq_false_iff.mp (Double.not_lt_of_le ordered))
  rw [whole]
  exact ⟨_, _, rfl, _, rfl⟩

theorem coin_answers (probability : Double) :
    Answers (.coin probability) (engine.source.coin probability) := by
  intro legal s
  have within : Config.isProbability probability = true := legal (.ok true)
  have whole : engine.source.coin probability =
      take engine.unit >>= fun unit => pure (unit.lt probability) := if_pos within
  rw [whole]
  exact ⟨_, _, rfl, _, rfl⟩

theorem Answers.granted {event : Except DrawError α → DrawEvent} {draw : Draw σ α}
    (answers : Answers event draw) (s : σ × Nat) :
    Obliges Prod.snd s event (Source.granted draw) := by
  intro legal
  obtain ⟨state, left⟩ := s
  cases left with
  | zero => exact .inr ⟨_, rfl⟩
  | succ left =>
      obtain ⟨a, after, drawn, answered⟩ := answers legal state
      refine .inl ⟨a, (after, left), ?_, answered, Nat.lt_succ_self left⟩
      rw [Source.granted]
      dsimp only
      rw [drawn]

theorem Lawful.limited (lawful : engine.Lawful) : engine.source.limited.Obliging Prod.snd where
  choice s weights := (choice_answers weights).granted s
  bit s mask := (bit_answers lawful mask).granted s
  integer s lo hi := (integer_answers lawful lo hi).granted s
  real s lo hi := (real_answers lo hi).granted s
  coin s probability := (coin_answers probability).granted s

end Engine

namespace Twister

theorem below_lt {bound : Nat} (positive : 0 < bound) (attempts : Nat) (twister : Twister) :
    (below bound attempts twister).1 < bound := by
  induction attempts generalizing twister with
  | zero => exact Nat.mod_lt _ positive
  | succ attempts ih =>
      rw [below]
      dsimp only
      split
      · assumption
      · exact ih _

/-- Drawing again without any limit until a number fits; counted is what did not. -/
inductive DrawsUntil (bound : Nat) : (rejected : Nat) → Twister → Nat × Twister → Prop
  | fits {twister : Twister} (small : (bits (bound.log2 + 1) twister).1 < bound) :
      DrawsUntil bound 0 twister (bits (bound.log2 + 1) twister)
  | again {twister : Twister} {rejected : Nat} {result : Nat × Twister}
      (large : ¬ (bits (bound.log2 + 1) twister).1 < bound)
      (later : DrawsUntil bound rejected (bits (bound.log2 + 1) twister).2 result) :
      DrawsUntil bound (rejected + 1) twister result

/-- The limit shows only if more numbers are rejected than it allows for: the last number that may be
drawn fits, too, and is its own remainder. -/
theorem below_eq {bound rejected attempts : Nat} {twister : Twister} {result : Nat × Twister}
    (draws : DrawsUntil bound rejected twister result) (few : rejected ≤ attempts) :
    below bound attempts twister = result := by
  induction draws generalizing attempts with
  | fits small =>
      cases attempts with
      | zero => exact Prod.ext (Nat.mod_eq_of_lt small) rfl
      | succ attempts =>
          rw [below]
          exact if_pos small
  | again large _ ih =>
      cases attempts with
      | zero => cases few
      | succ attempts =>
          rw [below]
          exact (if_neg large).trans (ih (Nat.le_of_succ_le_succ few))

theorem integer_eq {lo hi : Int} {rejected : Nat} {twister : Twister} {result : Nat × Twister}
    (draws : DrawsUntil (hi - lo + 1).toNat rejected twister result) (few : rejected ≤ patience) :
    engine.integer lo hi twister = (lo + result.1, result.2) := by
  have drawn := below_eq draws few
  simp only [engine, drawn]

theorem engine_lawful : engine.Lawful where
  integer twister lo hi ordered := by
    have bound := @below_lt (hi - lo + 1).toNat (by omega) patience twister
    change lo ≤ lo + ((below (hi - lo + 1).toNat patience twister).1 : Int) ∧
      lo + ((below (hi - lo + 1).toNat patience twister).1 : Int) ≤ hi
    omega

end Twister
end CExpr
