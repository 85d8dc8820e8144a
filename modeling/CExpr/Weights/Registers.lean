import CExpr.Config.Basic

/-!
Named registers that hold weights, and the steps that build, copy, change and compare them. A step
that fails leaves every register as it was.
-/
namespace CExpr

inductive RegisterStep
  | build (register : String) (exprs types : Option (List Double))
  | configure (register : String) (config : Config)
  | copy (register source : String)
  | get (register : String) (member : Member)
  | set (register : String) (member : Member) (value : Double)
  | scale (register : String) (member : Member) (factor : Double)
  | inspect (register : String)
  | compare (register other : String)
  /-- Compare with a plain list, which no weights are equal to. -/
  | compareList (register : String) (values : List Double)

inductive RegisterAnswer
  | state (weights : Weights)
  | value (value : Double)
  | verdict (equal : Bool)

inductive RegisterError
  | unset (register : String)
  | weight (e : WeightError)

abbrev Registers := List (String × Weights)

namespace Registers

def read (registers : Registers) (register : String) : Except RegisterError Weights :=
  match registers.lookup register with
  | some weights => .ok weights
  | none => .error (.unset register)

def write (registers : Registers) (register : String) (weights : Weights) : Registers :=
  (register, weights) :: registers.filter (·.1 ≠ register)

def slot (member : Member) : Except RegisterError WeightSlot :=
  match member.slot? with
  | some slot => .ok slot
  | none => .error (.weight (.notWeighted member.vocabulary))

def store (registers : Registers) (register : String) (weights : Except WeightError Weights) :
    Except RegisterError (RegisterAnswer × Registers) :=
  match weights with
  | .ok weights => .ok (.state weights, registers.write register weights)
  | .error e => .error (.weight e)

def step (registers : Registers) : RegisterStep → Except RegisterError (RegisterAnswer × Registers)
  | .build register exprs types => registers.store register (Weights.ofLists exprs types)
  | .configure register config => registers.store register (Weights.ofConfig config)
  | .copy register source => do
    registers.store register (.ok (← registers.read source))
  | .get register member => do
    let weights ← registers.read register
    return (.value (weights.get (← slot member)), registers)
  | .set register member value => do
    let weights ← registers.read register
    let _ ← (Weight.check value).mapError .weight
    registers.store register (weights.set (← slot member) value)
  | .scale register member factor => do
    let weights ← registers.read register
    registers.store register (weights.scale (← slot member) factor)
  | .inspect register => do return (.state (← registers.read register), registers)
  | .compare register other => do
    let weights ← registers.read register
    return (.verdict (weights.same (← registers.read other)), registers)
  | .compareList register _ => do
    let _ ← registers.read register
    return (.verdict false, registers)

def after (registers : Registers) (step : RegisterStep) : Registers :=
  match registers.step step with
  | .ok (_, registers) => registers
  | .error _ => registers

end Registers

def RegisterError.message : RegisterError → String
  | unset register => Text.quoted register
  | weight e => e.message

end CExpr
