import CExpr.Builtin
import CExpr.CommandLine.Arguments
import CExpr.Config.File
import CExpr.Draw.Sources
import CExpr.Draw.Twister
import CExpr.Expr.Basic
import CExpr.Generator
import CExpr.Term.Basic

/-!
A run of the program: load the configuration, generate the expressions one after another from one
source, print each that was not cut short, and sum up. An expression that exceeds its time is
skipped, and all it leaves behind is the draws it has made.
-/
namespace CExpr

inductive LogLevel
  | debug | info | warning | error
  deriving DecidableEq

structure LogRecord where
  level : LogLevel
  message : String
  deriving DecidableEq

def LogLevel.name : LogLevel → String
  | debug => "DEBUG" | info => "INFO" | warning => "WARNING" | error => "ERROR"

inductive Iteration
  | generated (e : Expr)
  | skipped
  | failed (e : DrawError)
  deriving DecidableEq

inductive RunFailure
  | load (e : LoadError)
  | draw (e : DrawError)
  | reference (e : ReferenceError)
  /-- The seed was given nothing. -/
  | noSeed
  /-- The timeout was given nothing. -/
  | noTimeout
  | timeoutTooLong (seconds : Int)
  /-- The variable was given nothing and had to be printed. -/
  | noName
  /-- The variable was given nothing and had to be bound to its value. -/
  | noNameToBind
  /-- The value of the variable was given nothing and was needed. -/
  | noNameValue

def RunFailure.message : RunFailure → String
  | load e => e.message
  | draw e => e.message
  | reference e => e.message
  | noSeed => s!"argument {OptionKind.seed.label}: nothing given"
  | noTimeout => s!"argument {OptionKind.timeout.label}: nothing given"
  | timeoutTooLong seconds => s!"argument {OptionKind.timeout.label}: too long: {seconds}"
  | noName | noNameToBind => s!"argument {OptionKind.name.label}: nothing given"
  | noNameValue => s!"argument {OptionKind.nameValue.label}: nothing given"

structure Report where
  status : Except RunFailure Nat
  lines : List String
  logs : List LogRecord

namespace Iteration

/-- One request. With a grant its time is over when it has made that many draws, before it makes one
more or returns. -/
def once (source : Source σ) (config : ValidConfig) (name : String) (grant : Option Nat) (state : σ) :
    Iteration × σ :=
  match grant with
  | none =>
    match Generator.generate source config name Generator.depthLimit state with
    | (.ok e, state) => (generated e, state)
    | (.error e, state) => (failed e, state)
  | some draws =>
    match Generator.generate source.limited config name Generator.depthLimit (state, draws) with
    | (.ok e, state, _ + 1) => (generated e, state)
    | (.ok _, state, 0) | (.error .interrupted, state, _) => (skipped, state)
    | (.error e, state, _) => (failed e, state)

def series (source : Source σ) (config : ValidConfig) (name : String) (grants : Nat → Option Nat) :
    (left index : Nat) → σ → List Iteration
  | 0, _, _ => []
  | left + 1, index, state =>
    match once source config name (grants index) state with
    | (failed e, _) => [failed e]
    | (iteration, state) =>
      iteration :: series source config name grants left (index + 1) state

def tree? : Iteration → Option Expr
  | generated e => some e
  | _ => none

end Iteration

namespace Expr

def isIntegerOnly (e : Expr) : Bool := !e.subexpressions.any (·.isDouble)

def hasVariable (e : Expr) : Bool := e.subexpressions.any (·.isVariable)

def textFor (arguments : Arguments) (e : Expr) : Except RunFailure String :=
  if arguments.name = .nothing && e.hasVariable then .error .noName else .ok e.text

/-- The value of an expression over the variable of the arguments. The variable is bound before the
expression is looked at, its value is read when the expression has the variable. -/
def valueFor (arguments : Arguments) (e : Expr) : Except RunFailure Word :=
  match arguments.name with
  | .nothing => .error .noNameToBind
  | .value name =>
    if arguments.nameValue = .nothing && e.hasVariable then .error .noNameValue
    else (e.reference [(name, arguments.nameValue.getD 0)]).mapError .reference

def line (arguments : Arguments) (e : Expr) : Except RunFailure String :=
  if arguments.reference && e.isIntegerOnly then do
    let value ← e.valueFor arguments
    return s!"{← e.textFor arguments}\t{value.toNat}"
  else e.textFor arguments

def records (arguments : Arguments) (e : Expr) : Except RunFailure (List LogRecord) :=
  if arguments.debug then do
    return [⟨.debug, s!"Generated expression (depth {e.depth}): {← e.textFor arguments}"⟩]
  else .ok []

end Expr

namespace Report

def summary (seed : Option Int) (trees : List Expr) : LogRecord :=
  let depths := trees.map Expr.depth
  let seedText := match seed with
    | some seed => toString seed
    | none => "None"
  let mean := match Double.ofRatio false depths.sum depths.length with
    | .finite _ units _ => Double.hundredths units
    | _ => ""
  ⟨.info, s!"Generated {depths.length} expressions (seed={seedText}): " ++
    s!"max depth {depths.foldl max 0}, mean depth {mean}"⟩

structure Progress where
  lines : List String
  logs : List LogRecord
  failure : Option RunFailure

namespace Progress

def stopped (failure : Option RunFailure) : Progress := ⟨[], [], failure⟩

def afterRecords (records : List LogRecord) (progress : Progress) : Progress :=
  { progress with logs := records ++ progress.logs }

def afterLine (line : String) (progress : Progress) : Progress :=
  { progress with lines := line :: progress.lines }

def ofTree (arguments : Arguments) (e : Expr) (rest : Progress) : Progress :=
  match e.records arguments with
  | .error failure => stopped failure
  | .ok records =>
    afterRecords records <|
      match e.line arguments with
      | .error failure => stopped failure
      | .ok line => rest.afterLine line

def ofIterations (arguments : Arguments) (timeout : Int) : Nat → List Iteration → Progress
  | _, [] => stopped none
  | index, iteration :: iterations =>
    let rest := ofIterations arguments timeout (index + 1) iterations
    match iteration with
    | .failed e => stopped (some (.draw e))
    | .generated e => ofTree arguments e rest
    | .skipped =>
      rest.afterRecords [⟨.warning, s!"Expression {index} exceeded {timeout}s, skipping"⟩]

end Progress

def ofProgress (warnings : List LogRecord) (summary : List LogRecord) (progress : Progress) :
    Report :=
  let logs := warnings ++ progress.logs
  match progress.failure with
  | some failure => ⟨.error failure, progress.lines, logs⟩
  | none => ⟨.ok 0, progress.lines, logs ++ summary⟩

def broken (failure : RunFailure) (logs : List LogRecord) : Report := ⟨.error failure, [], logs⟩

end Report

def maxTimeout : Int := 2 ^ 31 - 1

def Arguments.limit (arguments : Arguments) : Except RunFailure Int :=
  match arguments.timeout with
  | .nothing => .error .noTimeout
  | .value seconds => if maxTimeout < seconds then .error (.timeoutTooLong seconds) else .ok seconds

/-- The requests of a run over a source. The time limit is set up anew for each request, so it does
not matter to a run without any. -/
def runRequests (source : Source σ) (state : σ) (arguments : Arguments) (config : ValidConfig)
    (seed : Option Int) (grants : Nat → Option Nat) (warnings : List LogRecord) : Report :=
  match arguments.count.getD 0 |>.toNat, arguments.limit with
  | 0, _ => ⟨.ok 0, [], warnings⟩
  | _ + 1, .error failure => .broken failure warnings
  | count, .ok timeout =>
    let grants := fun index => if 0 < timeout then grants index else none
    let name := arguments.name.getD Arguments.defaultName
    let iterations := Iteration.series source config name grants count 0 state
    let trees := iterations.filterMap Iteration.tree?
    let summary := if trees.isEmpty then [] else [Report.summary seed trees]
    .ofProgress warnings summary (.ofIterations arguments timeout 0 iterations)

/-- A run over a source that is made from a seed. The configuration is checked once when it is
loaded and once more when the generator takes it over, and each check warns. Without a seed on the
command line the spare seed is used. -/
def runFrom (source : Source σ) (seeded : Int → σ) (spareSeed : Int) (arguments : Arguments)
    (loaded : Except LoadError ValidConfig) (grants : Nat → Option Nat) : Report :=
  match loaded with
  | .error e =>
    if e.isReported then
      ⟨.ok 2, [], [⟨.error, s!"Invalid generator configuration: {e.message}"⟩]⟩
    else .broken (.load e) []
  | .ok config =>
    let warnings := config.val.warnings.map (⟨.warning, ·⟩)
    let start (seed : Option Int) := runRequests source (seeded (seed.getD spareSeed)) arguments
      config seed grants (warnings ++ warnings)
    match arguments.seed with
    | none => start none
    | some (.value seed) => start (some seed)
    | some .nothing => .broken .noSeed warnings

def run (spareSeed : Int) (arguments : Arguments) (loaded : Except LoadError ValidConfig)
    (grants : Nat → Option Nat) : Report :=
  runFrom Twister.engine.source .ofSeed spareSeed arguments loaded grants

end CExpr
