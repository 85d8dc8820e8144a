import CExpr.Proofs.CommandLine.Failure
import CExpr.Proofs.Expr.SymbolTable
import CExpr.Draw.Sources

/-!
The column of reference values. Whether an expression gets a value behind it is settled by a visit of all
of its nodes, and that lets through exactly what can be lowered. The trees of a run have no variable but
the one that is bound, so each of them that is let through has a value, and nothing but a request that
ends without a tree breaks off the printing.
-/
namespace CExpr

theorem Expr.isIntegerOnly_iff_doubles {e : Expr} : e.isIntegerOnly = true ↔ e.doubles = [] :=
  isIntegerOnly_iff.trans hasDouble_eq_false_iff

structure AsksForValues (arguments : Arguments) (name : String) (value : Int) : Prop where
  asked : arguments.reference = true
  named : arguments.name = .value name
  valued : arguments.nameValue = .value value
  sown : arguments.seed ≠ some .nothing

namespace AsksForValues

variable {σ : Type} {source : Source σ} {config : ValidConfig} {arguments : Arguments} {name : String}
  {value : Int} {grants : Nat → Option Nat} {seeded : Int → σ} {spareSeed : Int}

theorem given (asks : AsksForValues arguments name value) : arguments.nameValue ≠ .nothing := by
  rw [asks.valued]
  exact nofun

/-- Every tree of the run can be logged and printed, so it does not break the run off. -/
theorem draw_of_obstacle (asks : AsksForValues arguments name value) {state : σ}
    {failure : RunFailure}
    (obstacle : Obstacle arguments (requests source config name arguments grants state) failure) :
    ∃ e, failure = .draw e := by
  cases obstacle with
  | draw ended => exact ⟨_, rfl⟩
  | log made unlogged =>
      obtain ⟨records, logged⟩ := Expr.exists_records asks.named
      cases logged.symm.trans unlogged
  | line made unprinted =>
      obtain ⟨line, printed, _⟩ :=
        Expr.exists_line asks.named (fun _ => asks.given) (Iteration.renamed_of_mem_series made)
      cases printed.symm.trans unprinted

theorem failure (asks : AsksForValues arguments name value) {failure : RunFailure}
    (ended : (runFrom source seeded spareSeed arguments (.ok config) grants).status =
      .error failure) :
    (∃ e, failure = .draw e) ∨ arguments.limit = .error failure := by
  rcases failure_of_runFrom ended with ⟨unsown, _⟩ | unlimited | ⟨state, obstacle⟩
  · exact absurd unsown asks.sown
  · exact .inr unlimited
  · rw [asks.named] at obstacle
    exact .inl (asks.draw_of_obstacle obstacle)

end AsksForValues

def HasColumn (name : String) (value : Int) (line : String) (e : Expr) : Prop :=
  (e.doubles = [] ∧ ∃ word, e.reference [(name, value)] = .ok word ∧
    line = e.text ++ "\t" ++ toString word.toNat) ∨
  (e.doubles ≠ [] ∧ line = e.text)

theorem AsksForValues.hasColumn {arguments : Arguments} {name line : String} {value : Int} {e : Expr}
    (asks : AsksForValues arguments name value) (prints : Prints arguments name line e) :
    HasColumn name value line e := by
  rw [Prints, asks.asked, Bool.true_and, asks.valued] at prints
  split at prints
  · exact .inl ⟨Expr.isIntegerOnly_iff_doubles.mp ‹_›, prints⟩
  · exact .inr ⟨mt Expr.isIntegerOnly_iff_doubles.mpr ‹_›, prints⟩

/-- An expression is let through exactly if it can be lowered. A run with values asked for, over a
variable of any name that is bound to any integer, prints all of its trees: one without doubles with its
value behind it, and one with a double anywhere alone. Unless its time limit cannot be set, only a
request that ends without a tree makes the run fail. -/
theorem reference_column :
    (∀ (e : Expr) (symbols : SymbolTable),
      e.isIntegerOnly = true ↔ ∃ term, (e.lower symbols).1 = .ok term) ∧
    ∀ (σ : Type) (source : Source σ) (seeded : Int → σ) (spareSeed : Int) (config : ValidConfig)
      (arguments : Arguments) (name : String) (value : Int) (grants : Nat → Option Nat),
      AsksForValues arguments name value →
        let report := runFrom source seeded spareSeed arguments (.ok config) grants
        (∀ failure, report.status = .error failure →
          (∃ e, failure = .draw e) ∨ arguments.limit = .error failure) ∧
        ∀ timeout, arguments.limit = .ok timeout →
          List.Forall₂ (HasColumn name value) report.lines
            (runTrees source seeded spareSeed arguments config grants) := by
  refine ⟨fun e symbols => Expr.isIntegerOnly_iff_doubles.trans Expr.exists_lower_iff.symm, ?_⟩
  intro σ source seeded spareSeed config arguments name value grants asks report
  refine ⟨fun failure => asks.failure, fun timeout limit => ?_⟩
  exact (prints_runFrom asks.named (fun _ => asks.given) limit asks.sown seeded spareSeed grants).imp
    fun line e => asks.hasColumn

/-- A variable with a blank in its name that is bound to more than 64 bits, a quotient with it, and a
quotient with a double; then the draws are used up. -/
theorem reference_column_quotients :
    let script : Script := ⟨[2, 3, 0, 2, 3, 2, 1], [3, 3], [7], [.ofRatio false 1 2], []⟩
    let config : ValidConfig := ⟨.default, Config.default_valid⟩
    let arguments : Arguments := { Arguments.default with
      count := .value 4, name := .value "a b", reference := true, nameValue := .value (2 ^ 64 + 2) }
    let report := runFrom Script.source (fun _ => script) 0 arguments (.ok config) fun _ => none
    let broken : Expr := .binary .div (.var "a b") (.double (.ofRatio false 1 2))
    AsksForValues arguments "a b" (2 ^ 64 + 2) ∧ arguments.limit = .ok 0 ∧
      report.lines = ["a b\t2", "7 / a b\t3", "a b / 0.5"] ∧
      HasColumn "a b" (2 ^ 64 + 2) "a b / 0.5" broken ∧
      ∃ e, report.status = .error (.draw e) := by
  intro script config arguments report broken
  have asks : AsksForValues arguments "a b" (2 ^ 64 + 2) := ⟨rfl, rfl, rfl, nofun⟩
  have limit : arguments.limit = .ok 0 := rfl
  have lines : report.lines = ["a b\t2", "7 / a b\t3", "a b / 0.5"] := by decide +kernel
  have trees : runTrees Script.source (fun _ => script) 0 arguments config (fun _ => none) =
      [.var "a b", .binary .div (.integer 7) (.var "a b"), broken] := by decide +kernel
  obtain ⟨failures, columns⟩ := reference_column.2 Script Script.source (fun _ => script) 0 config
    arguments "a b" (2 ^ 64 + 2) (fun _ => none) asks
  have shown := columns 0 limit
  change List.Forall₂ _ report.lines _ at shown
  rw [lines, trees] at shown
  simp only [List.forall₂_cons] at shown
  refine ⟨asks, limit, lines, shown.2.2.1, ?_⟩
  have stopped : report.status.toOption = none := by decide +kernel
  cases ended : report.status with
  | ok code =>
      rw [ended] at stopped
      cases stopped
  | error failure =>
      rcases failures failure ended with ⟨e, rfl⟩ | unlimited
      · exact ⟨e, rfl⟩
      · cases limit.symm.trans unlimited

end CExpr
