import CExpr.Proofs.CommandLine.Failure
import CExpr.Proofs.Config.Usable

/-!
Configuration files that are no good. A run refuses them: it logs what is wrong, prints nothing and ends
with code 2. What it does not refuse but breaks off at is an integer with more digits than are converted,
apart from a path that no file can have.
-/
namespace CExpr

/-! Behind the loading nothing fails as loading does. -/
section Later

variable {arguments : Arguments} {e : Expr} {fault : LoadError}

theorem Expr.textFor_ne_load : e.textFor arguments ≠ .error (.load fault) := by
  unfold Expr.textFor
  split <;> exact nofun

theorem Expr.valueFor_ne_load : e.valueFor arguments ≠ .error (.load fault) := by
  unfold Expr.valueFor
  split
  · exact nofun
  · split
    · exact nofun
    · generalize e.reference _ = value
      cases value <;> exact nofun

theorem Expr.line_ne_load : e.line arguments ≠ .error (.load fault) := by
  intro failed
  rw [Expr.line] at failed
  split at failed
  · rcases bind_eq_error.mp failed with failed | ⟨value, _, failed⟩
    · exact Expr.valueFor_ne_load failed
    · rcases bind_eq_error.mp failed with failed | ⟨text, _, failed⟩
      · exact Expr.textFor_ne_load failed
      · cases failed
  · exact Expr.textFor_ne_load failed

theorem Expr.records_ne_load : e.records arguments ≠ .error (.load fault) := by
  intro failed
  rw [Expr.records] at failed
  split at failed
  · rcases bind_eq_error.mp failed with failed | ⟨text, _, failed⟩
    · exact Expr.textFor_ne_load failed
    · cases failed
  · cases failed

theorem Arguments.limit_ne_load : arguments.limit ≠ .error (.load fault) := by
  intro failed
  unfold Arguments.limit at failed
  split at failed
  · cases failed
  · split at failed <;> cases failed

theorem runFrom_ne_load {σ : Type} (source : Source σ) (seeded : Int → σ) (spareSeed : Int)
    (config : ValidConfig) (grants : Nat → Option Nat) :
    (runFrom source seeded spareSeed arguments (.ok config) grants).status ≠
      .error (.load fault) := by
  intro failed
  rcases failure_of_runFrom failed with ⟨_, noSeed⟩ | unlimited | ⟨state, obstacle⟩
  · cases noSeed
  · exact Arguments.limit_ne_load unlimited
  · cases obstacle with
    | log made unlogged => exact Expr.records_ne_load unlogged
    | line made unprinted => exact Expr.line_ne_load unprinted

end Later

/-! What loading does not report. -/
namespace Config

/-- Loading breaks off instead of refusing the file: the path has a null character, so that no file can
have it, or the file has an integer with more digits than are converted where the reader comes to. -/
def BreaksOff (path environment : Option String) (read : String → FileContent) : Prop :=
  ∃ chosen, configPath? path environment = some chosen ∧
    (chosen.toList.contains '\x00' = true ∨ ∃ content numeral, read chosen = .ok content ∧
      Json.read (unifyLineEnds content) = .error (.tooManyDigits numeral))

theorem ofFileText_unreported_iff {path : String} {content : List Char} :
    (∃ e, ofFileText path content = .error e ∧ e.isReported = false) ↔
      ∃ numeral, Json.read content = .error (.tooManyDigits numeral) := by
  unfold ofFileText
  cases found : Json.read content with
  | error e =>
      cases e with
      | fault kind position => simp [LoadError.isReported]
      | tooManyDigits numeral => simp [LoadError.isReported]
  | ok value =>
      cases value with
      | object entries =>
          cases overlaid : default.overlay entries <;>
            simp [overlaid, Except.mapError, LoadError.isReported]
      | null | truth _ | integer _ | number _ | text _ | list _ => simp [LoadError.isReported]

theorem load_unreported_iff {path environment : Option String} {read : String → FileContent} :
    (∃ e, load path environment read = .error e ∧ e.isReported = false) ↔
      BreaksOff path environment read := by
  unfold load BreaksOff
  cases configPath? path environment with
  | none =>
      cases default.validate <;> simp [Except.mapError, LoadError.isReported]
  | some chosen =>
      by_cases null : chosen.toList.contains '\x00' = true
      · simp only [Option.some.injEq, exists_eq_left', null, if_true, true_or, iff_true]
        exact ⟨.nullCharacter, rfl, rfl⟩
      · simp only [Option.some.injEq, exists_eq_left', null, if_false, Bool.false_eq_true, false_or]
        cases content : read chosen with
        | error problem => simp [LoadError.isReported]
        | ok content =>
            simp only [ofFileText_unreported_iff, Except.ok.injEq, exists_and_left, exists_eq_left']

theorem load_of_content {path environment : Option String} {read : String → FileContent}
    {chosen : String} {content : List Char} (named : configPath? path environment = some chosen)
    (proper : chosen.toList.contains '\x00' = false) (found : read chosen = .ok content) :
    load path environment read = ofFileText chosen (unifyLineEnds content) := by
  simp only [load, named, proper, found, Bool.false_eq_true, if_false]

/-- A document in the place of its configuration or of the reason to refuse it: no step of laying it over
the defaults breaks off in any other way. -/
def Takes (document : List (List Nat × Json.Value)) (loaded : Except LoadError ValidConfig) : Prop :=
  (∃ config : ValidConfig, Stepwise.overlay default document = .ok config.val ∧ loaded = .ok config) ∨
    ∃ e, Stepwise.overlay default document = .error (.refused e) ∧ loaded = .error (.overlay e)

theorem takes_ofFileText {path : String} {content : List Char} {document : List (List Nat × Json.Value)}
    (found : Json.read content = .ok (.object document)) :
    Takes document (ofFileText path content) := by
  have steps := Stepwise.overlay_read_eq (ValidConfig.legal ⟨default, default_valid⟩).kept found
  unfold ofFileText
  rw [found]
  cases laid : default.overlay document with
  | error e =>
      rw [laid] at steps
      exact .inr ⟨e, steps, by simp only [laid]; rfl⟩
  | ok config =>
      rw [laid] at steps
      exact .inl ⟨config, steps, by simp only [laid]; rfl⟩

/-! Unifying line ends leaves every run of digits where it is. -/
section LineEnds

variable {digits content : List Char}

theorem prefix_of_unifyLineEnds (ascii : Text.AsciiDigits digits)
    (front : digits <+: unifyLineEnds content) : digits <+: content := by
  fun_induction unifyLineEnds content generalizing digits with
  | case1 => exact front
  | case2 rest ih =>
      rcases List.prefix_cons_iff.mp front with rfl | ⟨others, rfl, _⟩
      · exact List.nil_prefix
      · exact absurd (ascii '\n' List.mem_cons_self) (by decide)
  | case3 c rest _ ih =>
      rcases List.prefix_cons_iff.mp front with rfl | ⟨others, rfl, behind⟩
      · exact List.nil_prefix
      · have first := ascii _ List.mem_cons_self
        by_cases feed : c = '\r'
        · rw [if_pos feed] at first
          exact absurd first (by decide)
        · rw [if_neg feed]
          have later := ih (fun d member => ascii d (List.mem_cons_of_mem _ member)) behind
          exact List.cons_prefix_cons.mpr ⟨rfl, later⟩

theorem infix_of_unifyLineEnds (ascii : Text.AsciiDigits digits)
    (inside : digits <:+: unifyLineEnds content) : digits <:+: content := by
  fun_induction unifyLineEnds content with
  | case1 => exact inside
  | case2 rest ih =>
      rcases List.infix_cons_iff.mp inside with front | later
      · have whole : digits <+: unifyLineEnds ('\r' :: '\n' :: rest) := by
          rw [unifyLineEnds]
          exact front
        exact (prefix_of_unifyLineEnds ascii whole).isInfix
      · exact List.infix_cons (List.infix_cons (ih later))
  | case3 c rest apart ih =>
      rcases List.infix_cons_iff.mp inside with front | later
      · have whole : digits <+: unifyLineEnds (c :: rest) := by
          rw [unifyLineEnds]
          · exact front
          · exact apart
        exact (prefix_of_unifyLineEnds ascii whole).isInfix
      · exact List.infix_cons (ih later)

theorem hasLongRun_of_unifyLineEnds {count : Nat}
    (found : Json.HasLongRun (unifyLineEnds content) count) : Json.HasLongRun content count := by
  obtain ⟨long, digits, inside, ascii, length⟩ := found
  exact ⟨long, digits, infix_of_unifyLineEnds ascii inside, ascii, length⟩

theorem unifyLineEnds_ones (count : Nat) :
    unifyLineEnds (List.replicate count '1') = List.replicate count '1' := by
  induction count with
  | zero => rfl
  | succ count ih =>
      rw [List.replicate_succ, unifyLineEnds, ih]
      · rfl
      · intro rest same
        cases same

end LineEnds

/-- Under a path that a file can have, only a file with a long run of digits breaks loading off. -/
theorem BreaksOff.cause {path environment : Option String} {read : String → FileContent}
    (broken : BreaksOff path environment read) :
    ∃ chosen, configPath? path environment = some chosen ∧
      (chosen.toList.contains '\x00' = true ∨
        ∃ content count, read chosen = .ok content ∧ Json.HasLongRun content count) := by
  obtain ⟨chosen, named, null | ⟨content, numeral, found, stopped⟩⟩ := broken
  · exact ⟨chosen, named, .inl null⟩
  · have run := hasLongRun_of_unifyLineEnds (Json.hasLongRun_of_read stopped)
    exact ⟨chosen, named, .inr ⟨content, numeral.count, found, run⟩⟩

end Config

/-- A run over what has been loaded goes as it should: it goes on with a configuration that stands up to
the checks, or it logs why there is none, prints nothing and ends with code 2. -/
def Copes (loaded : Except LoadError ValidConfig) (report : Report) : Prop :=
  match loaded with
  | .ok config => config.val.problem? = none ∧ ∀ fault, report.status ≠ .error (.load fault)
  | .error e => report = ⟨.ok 2, [], [⟨.error, s!"Invalid generator configuration: {e.message}"⟩]⟩

section Run

variable {σ : Type} {source : Source σ} {seeded : Int → σ} {spareSeed : Int} {arguments : Arguments}
  {grants : Nat → Option Nat}

theorem runFrom_unreported {e : LoadError} (unreported : e.isReported = false) :
    runFrom source seeded spareSeed arguments (.error e) grants = .broken (.load e) [] := by
  rw [runFrom]
  simp [unreported]

theorem runFrom_copes_iff_reported {loaded : Except LoadError ValidConfig} :
    Copes loaded (runFrom source seeded spareSeed arguments loaded grants) ↔
      ¬ ∃ e, loaded = .error e ∧ e.isReported = false := by
  cases loaded with
  | ok config =>
      refine iff_of_true ⟨config.property, fun _ => ?_⟩ ?_
      · exact runFrom_ne_load source seeded spareSeed config grants
      · rintro ⟨_, ⟨⟩, _⟩
  | error e =>
      cases reported : e.isReported with
      | true =>
          refine iff_of_true ?_ ?_
          · rw [Copes, runFrom]
            simp [reported]
          · rintro ⟨_, ⟨⟩, unreported⟩
            exact absurd (reported.symm.trans unreported) (by decide)
      | false =>
          refine iff_of_false ?_ (not_not_intro ⟨e, rfl, reported⟩)
          rw [runFrom_unreported reported]
          intro copes
          cases congrArg Report.status copes

/-- A run copes with whatever its configuration file holds, unless loading breaks off. Then the run
breaks off as well, with nothing printed, and the cause is a long run of digits in the file if the path
is one that a file can have. An object that the file holds takes effect, or there is a reason against it. -/
theorem runFrom_copes_iff {σ : Type} (source : Source σ) (seeded : Int → σ) (spareSeed : Int)
    (arguments : Arguments) (environment : Option String) (read : String → FileContent)
    (grants : Nat → Option Nat) :
    let loaded := Config.load arguments.configPath environment read
    let report := runFrom source seeded spareSeed arguments loaded grants
    (Copes loaded report ↔ ¬ Config.BreaksOff arguments.configPath environment read) ∧
      (Config.BreaksOff arguments.configPath environment read →
        (∃ fault, report.status = .error (.load fault) ∧ report.lines = [] ∧ report.logs = []) ∧
        ∃ chosen, configPath? arguments.configPath environment = some chosen ∧
          (chosen.toList.contains '\x00' = true ∨
            ∃ content count, read chosen = .ok content ∧ Json.HasLongRun content count)) ∧
      ∀ (chosen : String) (content : List Char) (document : List (List Nat × Json.Value)),
        configPath? arguments.configPath environment = some chosen →
          chosen.toList.contains '\x00' = false → read chosen = .ok content →
            Json.read (unifyLineEnds content) = .ok (.object document) →
              Config.Takes document loaded := by
  intro loaded report
  refine ⟨?_, ?_, ?_⟩
  · exact runFrom_copes_iff_reported.trans (not_congr Config.load_unreported_iff)
  · intro broken
    obtain ⟨e, failed, unreported⟩ := Config.load_unreported_iff.mpr broken
    have stopped : report = .broken (.load e) [] := by
      rw [← runFrom_unreported unreported, ← failed]
    refine ⟨⟨e, ?_⟩, broken.cause⟩
    rw [stopped]
    exact ⟨rfl, rfl, rfl⟩
  · intro chosen content document named proper found holds
    have loads : loaded = Config.ofFileText chosen (unifyLineEnds content) :=
      Config.load_of_content named proper found
    rw [loads]
    exact Config.takes_ofFileText holds

/-- An empty file. -/
theorem runFrom_copes_iff_empty :
    let arguments : Arguments := { Arguments.default with config := some (.value "bad.json") }
    let read : String → FileContent := fun _ => .ok []
    let loaded := Config.load arguments.configPath none read
    let report := run 0 arguments loaded fun _ => none
    ¬ Config.BreaksOff arguments.configPath none read ∧ Copes loaded report ∧
      report = ⟨.ok 2, [], [⟨.error, "Invalid generator configuration: " ++
        "bad.json: Expecting value: line 1 column 1 (char 0)"⟩]⟩ := by
  intro arguments read loaded report
  obtain ⟨copes, cause, _⟩ := runFrom_copes_iff Twister.engine.source .ofSeed 0 arguments none read
    fun _ => none
  have unbroken : ¬ Config.BreaksOff arguments.configPath none read := by
    intro broken
    obtain ⟨_, chosen, named, null | ⟨content, count, same, run⟩⟩ := cause broken
    · cases named
      exact absurd null (by decide)
    · cases same
      obtain ⟨long, digits, inside, _, length⟩ := run
      rw [List.infix_nil.mp inside] at length
      exact absurd (length ▸ long) (by decide)
  have empty : Json.read [] = .error (.fault .expectingValue 0) := by
    rw [Json.read, if_neg (by decide)]
    change (Json.value ⟨0, []⟩ >>= _) = _
    rw [Json.value]
    rfl
  have failed : loaded = .error (.malformed "bad.json" [] .expectingValue 0) := by
    have loads : loaded = Config.ofFileText "bad.json" (unifyLineEnds []) := by
      apply Config.load_of_content rfl ?_ rfl
      decide
    rw [loads, unifyLineEnds, Config.ofFileText, empty]
  have told : Copes loaded report := copes.mpr unbroken
  refine ⟨unbroken, told, ?_⟩
  rw [failed] at told
  have message : (LoadError.malformed "bad.json" [] .expectingValue 0).message =
      "bad.json: Expecting value: line 1 column 1 (char 0)" := by decide +kernel
  rw [Copes, message] at told
  exact told

/-- With an integer of 4301 digits for its configuration file the run breaks off, where it should have
logged the error and ended with code 2. -/
theorem not_forall_runFrom_copes :
    let words := ["--config", "bad.json"]
    let read : String → FileContent := fun _ => .ok (List.replicate 4301 '1')
    ∃ arguments, Arguments.ofWords (words.map String.toList) = .ok arguments ∧
      let loaded := Config.load arguments.configPath none read
      let report := run 0 arguments loaded fun _ => none
      loaded = .error (.tooManyDigits ⟨4301⟩) ∧
        report.status = .error (.load (.tooManyDigits ⟨4301⟩)) ∧ report.logs = [] ∧
        ¬ Copes loaded report := by
  intro words read
  let arguments : Arguments := { Arguments.default with config := some (.value "bad.json") }
  have accepted : Arguments.ofWords (words.map String.toList) = .ok arguments :=
    ok_of_toOption (by decide +kernel)
  have failed : Config.load arguments.configPath none read = .error (.tooManyDigits ⟨4301⟩) := by
    have loads : Config.load arguments.configPath none read =
        Config.ofFileText "bad.json" (unifyLineEnds (List.replicate 4301 '1')) := by
      apply Config.load_of_content rfl ?_ rfl
      decide
    rw [loads, Config.unifyLineEnds_ones, Config.ofFileText, Json.read_ones (by decide)]
  refine ⟨arguments, accepted, failed, ?_⟩
  rw [failed, run, runFrom_unreported rfl]
  refine ⟨rfl, rfl, fun copes => ?_⟩
  cases congrArg Report.status copes

end Run
end CExpr
