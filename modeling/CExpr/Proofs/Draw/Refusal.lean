import CExpr.Proofs.Draw.Lawful

/-!
Requests that a source refuses. Over a lawful engine a draw that is refused, because of what it was asked
for, takes nothing from the engine. So a sequence of requests can be stripped of the refused ones, and
all others are answered as before.
-/
namespace CExpr

/-- One request to a source. Integers, reals and coins are asked for in one way, whatever for; an index
is asked for as such, or to stand for an operator or a kind. -/
inductive DrawRequest
  | primitive (call : DrawCall)
  | binOp (mask : Mask)
  | unOp (mask : Mask)
  | exprKind (weights : Weights)
  | typeKind (weights : Weights)

inductive Drawn
  | index (value : Int)
  | integer (value : Int)
  | real (value : Double)
  | side (heads : Bool)
  | binOp (op : BinOp)
  | unOp (op : UnOp)
  | exprKind (kind : ExprKind)
  | typeKind (kind : TypeKind)

namespace Source

variable {σ : Type}

def serve (source : Source σ) : DrawRequest → Draw σ Drawn
  | .primitive (.choice weights) => do return .index (← source.choice weights)
  | .primitive (.bit mask) => do return .index (← source.bit mask)
  | .primitive (.integer lo hi) => do return .integer (← source.integer lo hi)
  | .primitive (.real lo hi) => do return .real (← source.real lo hi)
  | .primitive (.coin probability) => do return .side (← source.coin probability)
  | .binOp mask => do return .binOp (← source.binOp mask)
  | .unOp mask => do return .unOp (← source.unOp mask)
  | .exprKind weights => do return .exprKind (← source.exprKind weights)
  | .typeKind weights => do return .typeKind (← source.typeKind weights)

/-- One request after another, each in the state that the one before it left, failed or not. -/
def serveAll (source : Source σ) : List DrawRequest → σ → List (Except DrawError Drawn) × σ
  | [], s => ([], s)
  | request :: rest, s =>
    let (result, after) := source.serve request s
    let (results, last) := source.serveAll rest after
    (result :: results, last)

theorem serveAll_cons {source : Source σ} {request : DrawRequest} {rest : List DrawRequest}
    {s after : σ} {result : Except DrawError Drawn}
    (served : source.serve request s = (result, after)) :
    source.serveAll (request :: rest) s =
      (result :: (source.serveAll rest after).1, (source.serveAll rest after).2) := by
  rw [serveAll, served]

end Source

def WeightError.isPrecondition : WeightError → Bool
  | notNonnegative _ | exprCount _ | typeCount _ => true
  | notWeighted _ => false

def DrawError.isPrecondition : DrawError → Bool
  | negativeWeight _ | noPositiveWeight | emptyMask | rankOutside _ _ | emptyIntegerRange _ _
  | emptyRealRange _ _ | notProbability _ => true
  | weight e => e.isPrecondition
  | notMember _ _ | exhausted _ | interrupted | tooDeep => false

def refused {α : Type} : Except DrawError α → Bool
  | .error e => e.isPrecondition
  | .ok _ => false

def RefusesCleanly {σ α : Type} (draw : Draw σ α) : Prop :=
  ∀ s, refused (draw s).1 = true → (draw s).2 = s

namespace RefusesCleanly

variable {σ α β : Type}

theorem fail (e : DrawError) : RefusesCleanly (Draw.fail e : Draw σ α) := fun _ _ => rfl

theorem of_ok {draw : Draw σ α} (answers : ∀ s, ∃ a, (draw s).1 = .ok a) : RefusesCleanly draw := by
  intro s given
  obtain ⟨a, same⟩ := answers s
  rw [same] at given
  cases given

/-- What follows the draw must not refuse anything any more. -/
theorem bind {x : Draw σ α} {f : α → Draw σ β} (first : RefusesCleanly x)
    (second : ∀ a s, refused (f a s).1 = false) : RefusesCleanly (x >>= f) := by
  intro s given
  change refused (Draw.bind x f s).1 = true at given
  change (Draw.bind x f s).2 = s
  unfold Draw.bind at given ⊢
  have clean := first s
  generalize x s = outcome at given clean
  obtain ⟨result, middle⟩ := outcome
  cases result with
  | ok a =>
      rw [second a middle] at given
      cases given
  | error e => exact clean given

theorem map {x : Draw σ α} (first : RefusesCleanly x) (f : α → β) :
    RefusesCleanly (do return f (← x)) :=
  first.bind fun _ _ => rfl

theorem drawn {x : Draw σ Int} (first : RefusesCleanly x) (vocabulary : Vocabulary)
    (members : List α) : RefusesCleanly (x >>= Source.member vocabulary members) := by
  apply first.bind
  intro index s
  unfold Source.member
  cases if index < 0 then none else members[index.toNat]? <;> rfl

end RefusesCleanly

namespace Engine

variable {σ : Type} {engine : Engine σ}

theorem weightedChoice_refusesCleanly (weights : List Double) :
    RefusesCleanly (engine.weightedChoice weights) := by
  unfold weightedChoice
  split
  · exact .fail _
  · dsimp only
    split
    · exact .fail _
    · exact .of_ok fun s => ⟨_, rfl⟩

/-- A lawful engine yields a rank that the mask has, so that nothing is refused after it was drawn. -/
theorem bit_refusesCleanly (lawful : engine.Lawful) (mask : Mask) :
    RefusesCleanly (engine.source.bit mask) := by
  cases isEmpty : mask.isEmpty with
  | true =>
      have empty : engine.pickBit mask = .fail .emptyMask := if_pos isEmpty
      change RefusesCleanly (engine.pickBit mask >>= fun index => pure (index : Int))
      rw [empty]
      exact (RefusesCleanly.fail _).map _
  | false =>
      refine .of_ok fun s => ?_
      obtain ⟨index, after, drawn, _⟩ := bit_answers lawful mask (fun _ => isEmpty) s
      exact ⟨index, by rw [drawn]⟩

theorem integer_refusesCleanly (lo hi : Int) : RefusesCleanly (engine.source.integer lo hi) := by
  change RefusesCleanly (if hi < lo then _ else _)
  split
  · exact .fail _
  · exact .of_ok fun s => ⟨_, rfl⟩

theorem real_refusesCleanly (lo hi : Double) : RefusesCleanly (engine.source.real lo hi) := by
  change RefusesCleanly (if hi.lt lo = true then _ else _)
  split
  · exact .fail _
  · exact .of_ok fun s => ⟨_, rfl⟩

theorem coin_refusesCleanly (probability : Double) :
    RefusesCleanly (engine.source.coin probability) := by
  change RefusesCleanly (if _ = true then _ else _)
  split
  · exact .of_ok fun s => ⟨_, rfl⟩
  · exact .fail _

theorem serve_refusesCleanly (lawful : engine.Lawful) (request : DrawRequest) :
    RefusesCleanly (engine.source.serve request) := by
  have choice (weights : List Double) : RefusesCleanly (engine.source.choice weights) :=
    (weightedChoice_refusesCleanly weights).map _
  cases request with
  | primitive call =>
      cases call with
      | choice weights => exact (choice weights).map _
      | bit mask => exact (bit_refusesCleanly lawful mask).map _
      | integer lo hi => exact (integer_refusesCleanly lo hi).map _
      | real lo hi => exact (real_refusesCleanly lo hi).map _
      | coin probability => exact (coin_refusesCleanly probability).map _
  | binOp mask => exact ((bit_refusesCleanly lawful mask).drawn _ _).map _
  | unOp mask => exact ((bit_refusesCleanly lawful mask).drawn _ _).map _
  | exprKind weights => exact ((choice weights.exprList).drawn _ _).map _
  | typeKind weights => exact ((choice weights.typeList).drawn _ _).map _

/-- Without the requests that it refuses a source answers all others as before and ends in the state in
which it would have ended anyway. -/
theorem serveAll_kept (lawful : engine.Lawful) (requests : List DrawRequest) (s : σ) :
    let run := engine.source.serveAll requests s
    let kept := (requests.zip run.1).filter fun entry => !refused entry.2
    engine.source.serveAll (kept.map (·.1)) s = (kept.map (·.2), run.2) := by
  induction requests generalizing s with
  | nil => rfl
  | cons request rest ih =>
      have clean := serve_refusesCleanly lawful request s
      rcases served : engine.source.serve request s with ⟨result, after⟩
      have later := ih after
      rw [served] at clean
      dsimp only at later ⊢
      rw [Source.serveAll_cons served, List.zip_cons_cons]
      cases given : refused result with
      | true =>
          -- The rest is then served from the state in which the refused request was made.
          cases clean given
          rw [List.filter_cons_of_neg (by simp [given])]
          exact later
      | false =>
          rw [List.filter_cons_of_pos (by simp [given]), List.map_cons, List.map_cons,
            Source.serveAll_cons served, later]

/-- The twister is asked for a coin with a probability that is no number, a bit of a full mask, a choice
without weights and an integer: only the second and the last take something. -/
theorem serveAll_kept_twister :
    let source := Twister.engine.source
    let bit := DrawRequest.primitive (.bit (Mask.full .binOp))
    let number := DrawRequest.primitive (.integer 0 9)
    let requests := [.primitive (.coin .nan), bit, .primitive (.choice []), number]
    Twister.engine.Lawful ∧ ∃ index value after,
      source.serveAll requests (.ofSeed 7) =
        ([.error (.notProbability .nan), .ok (.index index), .error .noPositiveWeight,
          .ok (.integer value)], after) ∧
      source.serveAll [bit, number] (.ofSeed 7) = ([.ok (.index index), .ok (.integer value)], after) := by
  intro source bit number requests
  refine ⟨Twister.engine_lawful, ?_⟩
  generalize Twister.ofSeed 7 = start
  have nonempty : (Mask.full .binOp).isEmpty = false := by decide
  obtain ⟨index, middle, drawn, _⟩ :=
    bit_answers Twister.engine_lawful (Mask.full .binOp) (fun _ => nonempty) start
  obtain ⟨value, after, found, _⟩ :=
    integer_answers Twister.engine_lawful 0 9 (fun _ => by simp [DrawEvent.IsLegal]) middle
  have first : source.serve bit start = (.ok (.index index), middle) :=
    Draw.bind_eq_ok.mpr ⟨_, _, drawn, rfl⟩
  have last : source.serve number middle = (.ok (.integer value), after) :=
    Draw.bind_eq_ok.mpr ⟨_, _, found, rfl⟩
  have coin (s : Twister) :
      source.serve (.primitive (.coin .nan)) s = (.error (.notProbability .nan), s) := rfl
  have choice (s : Twister) :
      source.serve (.primitive (.choice [])) s = (.error .noPositiveWeight, s) := rfl
  have run : source.serveAll requests start =
      ([.error (.notProbability .nan), .ok (.index index), .error .noPositiveWeight,
        .ok (.integer value)], after) := by
    rw [Source.serveAll_cons (coin start), Source.serveAll_cons first,
      Source.serveAll_cons (choice middle), Source.serveAll_cons last]
    rfl
  have kept := serveAll_kept Twister.engine_lawful requests start
  refine ⟨index, value, after, run, ?_⟩
  rw [run] at kept
  exact kept

end Engine
end CExpr
