import CExpr.Draw.Basic
import CExpr.Draw.Uniform

/-!
Sources that watch, limit or replay. A traced source makes the same draws as the source it watches and
writes down every call, in order and before the call is answered; a watched engine does so with what is
asked of the engine. A limited source breaks off before one more draw than it was granted. A script has
five queues, one for each primitive, whose front is the answer whatever was asked; an empty queue is a
failure, except that coins then fall tails.
-/
namespace CExpr

inductive DrawCall
  | choice (weights : List Double)
  | bit (mask : Mask)
  | integer (lo hi : Int)
  | real (lo hi : Double)
  | coin (probability : Double)
  deriving DecidableEq

namespace Source

variable {σ : Type}

def recorded (call : DrawCall) (draw : Draw σ α) : Draw (σ × List DrawCall) α := fun s =>
  let (result, after) := draw s.1
  (result, after, s.2 ++ [call])

def traced (source : Source σ) : Source (σ × List DrawCall) where
  choice weights := recorded (.choice weights) (source.choice weights)
  bit mask := recorded (.bit mask) (source.bit mask)
  integer lo hi := recorded (.integer lo hi) (source.integer lo hi)
  real lo hi := recorded (.real lo hi) (source.real lo hi)
  coin probability := recorded (.coin probability) (source.coin probability)

/-- A draw that counts down what is left, and breaks off when nothing is. -/
def granted (draw : Draw σ α) : Draw (σ × Nat) α := fun s =>
  match s.2 with
  | 0 => (.error .interrupted, s)
  | left + 1 =>
    let (result, after) := draw s.1
    (result, after, left)

def limited (source : Source σ) : Source (σ × Nat) where
  choice weights := granted (source.choice weights)
  bit mask := granted (source.bit mask)
  integer lo hi := granted (source.integer lo hi)
  real lo hi := granted (source.real lo hi)
  coin probability := granted (source.coin probability)

end Source

inductive EngineCall
  | unit
  | integer (lo hi : Int)
  | real (lo hi : Double)
  deriving DecidableEq

namespace Engine

variable {σ α : Type}

def noted (call : EngineCall) (step : σ → α × σ) : σ × List EngineCall → α × σ × List EngineCall :=
  fun s => ((step s.1).1, (step s.1).2, s.2 ++ [call])

def watched (engine : Engine σ) : Engine (σ × List EngineCall) where
  unit := noted .unit engine.unit
  integer lo hi := noted (.integer lo hi) (engine.integer lo hi)
  real lo hi := noted (.real lo hi) (engine.real lo hi)

end Engine

structure Script where
  kinds : List Int
  bits : List Int
  integers : List Int
  reals : List Double
  coins : List Bool
  deriving DecidableEq

namespace Script

/-- The front of a queue, which stays in place of the queue when it is empty. -/
def pop (queue : Queue) (items : Script → List α) (put : Script → List α → Script) :
    Draw Script α := fun script =>
  match items script with
  | front :: rest => (.ok front, put script rest)
  | [] => (.error (.exhausted queue), script)

def source : Source Script where
  choice _ := pop .kinds kinds fun script rest => { script with kinds := rest }
  bit _ := pop .bits bits fun script rest => { script with bits := rest }
  integer _ _ := pop .integers integers fun script rest => { script with integers := rest }
  real _ _ := pop .reals reals fun script rest => { script with reals := rest }
  coin _ := fun script =>
    match script.coins with
    | front :: rest => (.ok front, { script with coins := rest })
    | [] => (.ok false, script)

end Script
end CExpr
