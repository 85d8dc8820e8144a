import CExpr.Proofs.Weights.Legal
import CExpr.Proofs.Weights.Slots
import CExpr.Weights.Registers

/-!
Weights as a program keeps them whose lists can be written to. Such a program has a store of lists;
the weights of a register are two places in it, and a caller has places of its own: those of the lists
it made and of those it was handed. Whoever has a place can write to it, so nothing about the weights
of a register is safe unless no one else has its places, and no list of weights is legal unless every
write to it was checked.

The steps here do what the steps on registers do, one access to the store after the other, and a step
that fails keeps what it did before.
-/
namespace CExpr

structure Holding where
  exprs : Nat
  types : Nat

def Holding.place (holding : Holding) : WeightTable → Nat
  | .exprKinds => holding.exprs
  | .typeKinds => holding.types

structure Workspace where
  lists : List (List Double)
  holdings : List (String × Holding)
  /-- The places that the caller has. -/
  given : List Nat

inductive WorkStep
  /-- The caller makes a list. -/
  | list (values : List Double)
  /-- The caller writes to a list it has, whatever it likes. -/
  | overwrite (which : Nat) (values : List Double)
  /-- The caller is handed a list of weights. -/
  | hand (register : String) (table : WeightTable)
  /-- New weights from lists that the caller has. No list stands for zeros. -/
  | build (register : String) (exprs types : Option Nat)
  | configure (register : String) (config : Config)
  | copy (register source : String)
  | get (register : String) (member : Member)
  | set (register : String) (member : Member) (value : Double)
  | scale (register : String) (member : Member) (factor : Double)
  | compare (register other : String)
  | compareList (register : String) (values : List Double)

inductive WorkError
  | register (e : RegisterError)
  /-- The caller has no such list. -/
  | noList (which : Nat)
  /-- There is nothing at a place that is read or written. -/
  | outside

inductive WorkAnswer
  | done
  | value (value : Double)
  | verdict (equal : Bool)

/-- An action on the store. When it fails, the store is what it was made up to there. -/
abbrev Work := EStateM WorkError Workspace

namespace Workspace

def empty : Workspace := ⟨[], [], []⟩

def grown (space : Workspace) (more : List (List Double)) : Workspace :=
  { space with lists := space.lists ++ more }

def put (space : Workspace) (place : Nat) (values : List Double) : Workspace :=
  { space with lists := space.lists.set place values }

def handed (space : Workspace) (place : Nat) : Workspace :=
  { space with given := space.given ++ [place] }

def held (space : Workspace) (register : String) (holding : Holding) : Workspace :=
  { space with
    holdings := (register, holding) :: space.holdings.filter (·.1 ≠ register) }

/-! ### Actions -/

def attempt {α : Type} : Except RegisterError α → Work α
  | .ok a => return a
  | .error e => throw (.register e)

def allocate (values : List Double) : Work Nat := do
  let space ← get
  set (space.grown [values])
  return space.lists.length

def look {α : Type} (part : Workspace → Option α) (missing : WorkError) : Work α := fun space =>
  match part space with
  | some a => .ok a space
  | none => .error missing space

def load (place : Nat) : Work (List Double) := look (·.lists[place]?) .outside

def callerPlace (which : Nat) : Work Nat := look (·.given[which]?) (.noList which)

def find (register : String) : Work Holding :=
  look (·.holdings.lookup register) (.register (.unset register))

def callerList : Option Nat → Work (Option (List Double))
  | none => return none
  | some which => do return some (← load (← callerPlace which))

def checked (values : List Double) : Work (List Double) := do
  let weights ← attempt ((values.mapM Weight.check).mapError .weight)
  return weights.map (·.val)

def construct (register : String) (exprs types : Option (List Double)) : Work WorkAnswer := do
  let exprs := exprs.getD (List.replicate 5 (.zero false))
  let types := types.getD (List.replicate 3 (.zero false))
  if exprs.length = 5 then
    if types.length = 3 then
      let exprPlace ← allocate (← checked exprs)
      let typePlace ← allocate (← checked types)
      modify (·.held register ⟨exprPlace, typePlace⟩)
      return .done
    else throw (.register (.weight (.typeCount types.length)))
  else throw (.register (.weight (.exprCount exprs.length)))

def slotPlace (holding : Holding) (member : Member) : Work (Nat × Nat) := do
  let slot ← attempt (Registers.slot member)
  return (holding.place slot.table, slot.index)

def readSlot (holding : Holding) (member : Member) : Work Double := do
  let (place, index) ← slotPlace holding member
  let values ← load place
  look (fun _ => values[index]?) .outside

/-- The value is looked at before the member is. -/
def writeSlot (holding : Holding) (member : Member) (value : Double) : Work WorkAnswer := do
  let weight ← attempt ((Weight.check value).mapError .weight)
  let (place, index) ← slotPlace holding member
  let values ← load place
  if index < values.length then
    modify (·.put place (values.set index weight.val))
    return .done
  else throw .outside

def listsEqual (values others : List Double) : Bool :=
  values.length == others.length && (List.zipWith Double.equals values others).all id

def step : WorkStep → Work WorkAnswer
  | .list values => do
    let place ← allocate values
    modify (·.handed place)
    return .done
  | .overwrite which values => do
    let place ← callerPlace which
    modify (·.put place values)
    return .done
  | .hand register table => do
    let holding ← find register
    let place ← allocate (← load (holding.place table))
    modify (·.handed place)
    return .done
  | .build register exprs types => do
    let exprs ← callerList exprs
    let types ← callerList types
    construct register exprs types
  | .configure register config =>
    construct register (some (config.exprKinds.map (·.initial)))
      (some (config.typeKinds.map (·.initial)))
  | .copy register source => do
    let holding ← find source
    let exprs ← load holding.exprs
    let types ← load holding.types
    construct register (some exprs) (some types)
  | .get register member => do
    let holding ← find register
    return .value (← readSlot holding member)
  | .set register member value => do
    let holding ← find register
    writeSlot holding member value
  | .scale register member factor => do
    let holding ← find register
    let value ← readSlot holding member
    writeSlot holding member (value.mul factor)
  | .compare register other => do
    let first ← find register
    let second ← find other
    let exprs := listsEqual (← load first.exprs) (← load second.exprs)
    let types := listsEqual (← load first.types) (← load second.types)
    return .verdict (exprs && types)
  | .compareList register _ => do
    let _ ← find register
    return .verdict false

def after (space : Workspace) (next : WorkStep) : Workspace :=
  match (step next).run space with
  | .ok _ space | .error _ space => space

def run (steps : List WorkStep) : Workspace := steps.foldl after empty

end Workspace
end CExpr
