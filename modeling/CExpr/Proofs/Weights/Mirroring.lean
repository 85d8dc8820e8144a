import CExpr.Proofs.Weights.Separation

/-!
Steps that go as requests do. A step of a program that can write to its lists amounts to one step on
registers, or to none when it is only about lists that the caller has; what comes of it is what comes
of the request, and the places hold afterwards what the registers hold. The proof takes the actions of
a step one by one: what is found is what is read, and what is constructed or written is what is stored.
-/
namespace CExpr

def RegisterAnswer.work : RegisterAnswer → WorkAnswer
  | state _ => .done
  | value found => .value found
  | verdict equal => .verdict equal

namespace Workspace

def argument? (space : Workspace) : Option Nat → Option (Option (List Double))
  | none => some none
  | some which => (space.given[which]?.bind (space.lists[·]?)).map some

/-- The step on registers that a step amounts to. -/
def request? (space : Workspace) : WorkStep → Option RegisterStep
  | .list _ | .overwrite _ _ => none
  | .hand register _ => some (.inspect register)
  | .build register exprs types => do
    return .build register (← space.argument? exprs) (← space.argument? types)
  | .configure register config => some (.configure register config)
  | .copy register source => some (.copy register source)
  | .get register member => some (.get register member)
  | .set register member value => some (.set register member value)
  | .scale register member factor => some (.scale register member factor)
  | .compare register other => some (.compare register other)
  | .compareList register values => some (.compareList register values)

/-- What came of a step shows what comes of a request to the registers. -/
inductive Mirrors (registers : Registers) (request : RegisterStep) :
    EStateM.Result WorkError Workspace WorkAnswer → Prop
  | ok {answer : RegisterAnswer} {after : Registers} {space : Workspace}
      (went : registers.step request = .ok (answer, after)) (shown : space.Shows after) :
      Mirrors registers request (.ok answer.work space)
  | error {e : RegisterError} {space : Workspace}
      (failed : registers.step request = .error e) (shown : space.Shows registers) :
      Mirrors registers request (.error (.register e) space)

section Actions

variable {α β : Type} {space middle : Workspace}

theorem bind_of_ok {action : Work α} {next : α → Work β} {a : α}
    (ran : action.run space = .ok a middle) :
    (action >>= next).run space = (next a).run middle := by
  change EStateM.bind action next space = _
  rw [EStateM.bind, show action space = _ from ran]
  rfl

theorem bind_of_error {action : Work α} {next : α → Work β} {e : WorkError}
    (failed : action.run space = .error e middle) :
    (action >>= next).run space = .error e middle := by
  change EStateM.bind action next space = _
  rw [EStateM.bind, show action space = _ from failed]

theorem look_of_some {part : Workspace → Option α} {missing : WorkError} {a : α}
    (found : part space = some a) : (look part missing).run space = .ok a space := by
  simp only [look, EStateM.run, found]

theorem look_of_none {part : Workspace → Option α} {missing : WorkError}
    (absent : part space = none) : (look part missing).run space = .error missing space := by
  simp only [look, EStateM.run, absent]

theorem allocate_run (space : Workspace) (values : List Double) :
    (allocate values).run space = .ok space.lists.length (space.grown [values]) := rfl

theorem checked_cases {count : Nat} (space : Workspace) {values : List Double}
    (sized : values.toArray.size = count) :
    (∃ weights, (⟨values.toArray, sized⟩ : Vector Double count).mapM Weight.check = .ok weights ∧
      (checked values).run space = .ok (weights.toList.map (·.val)) space) ∨
    ∃ e, (⟨values.toArray, sized⟩ : Vector Double count).mapM Weight.check = .error e ∧
      (checked values).run space = .error (.register (.weight e)) space := by
  have lists : Except.map Vector.toList
      ((⟨values.toArray, sized⟩ : Vector Double count).mapM Weight.check) =
        values.mapM Weight.check := Weights.toList_mapM_check _
  unfold checked
  rw [← lists]
  cases (⟨values.toArray, sized⟩ : Vector Double count).mapM Weight.check with
  | ok weights => exact .inl ⟨weights, rfl, rfl⟩
  | error e => exact .inr ⟨e, rfl, rfl⟩

/-- New weights are legal and get two new lists, or they are refused and only some lists that no one
has are left. -/
theorem construct_cases (space : Workspace) (register : String)
    (exprs types : Option (List Double)) :
    (∃ weights, Weights.ofLists exprs types = .ok weights ∧
      (construct register exprs types).run space = .ok .done (space.settled register weights)) ∨
    ∃ e more, Weights.ofLists exprs types = .error e ∧
      (construct register exprs types).run space =
        .error (.register (.weight e)) (space.grown more) := by
  unfold construct Weights.ofLists
  generalize exprs.getD (List.replicate 5 (.zero false)) = exprValues
  generalize types.getD (List.replicate 3 (.zero false)) = typeValues
  have unchanged : space.grown [] = space := by rw [grown, List.append_nil]
  by_cases exprCount : exprValues.length = 5
  · rw [dif_pos exprCount, if_pos exprCount]
    by_cases typeCount : typeValues.length = 3
    · rw [dif_pos typeCount, if_pos typeCount]
      rcases checked_cases space exprCount with ⟨expr, exprLegal, ran⟩ | ⟨e, refused, ran⟩
      · rw [exprLegal, bind_of_ok ran, bind_of_ok (allocate_run _ _)]
        rcases checked_cases (space.grown [expr.toList.map (·.val)]) typeCount with
          ⟨type, typeLegal, ran⟩ | ⟨e, refused, ran⟩
        · rw [typeLegal, bind_of_ok ran, bind_of_ok (allocate_run _ _)]
          refine .inl ⟨⟨expr, type⟩, rfl, ?_⟩
          change EStateM.Result.ok _ (Workspace.held _ register ⟨_, _⟩) = _
          rw [grown_grown, length_grown]
          rfl
        -- The list for the first table is already made when the second one is refused.
        · rw [refused, bind_of_error ran]
          exact .inr ⟨e, _, rfl, rfl⟩
      · rw [refused, bind_of_error ran]
        exact .inr ⟨e, [], rfl, by rw [unchanged]⟩
    · rw [dif_neg typeCount, if_neg typeCount]
      exact .inr ⟨.typeCount typeValues.length, [], rfl, by rw [unchanged]; rfl⟩
  · rw [dif_neg exprCount, if_neg exprCount]
    exact .inr ⟨.exprCount exprValues.length, [], rfl, by rw [unchanged]; rfl⟩

end Actions

section Steps

variable {space : Workspace} {registers : Registers}

structure Kept (space : Workspace) (registers : Registers) (register : String) (holding : Holding)
    (weights : Weights) : Prop where
  held : registers.lookup register = some weights
  places : ∀ table, space.place? register table = some (holding.place table)
  lists : ∀ table, space.lists[holding.place table]? = some (weights.list table)

theorem find_cases (shown : space.Shows registers) (register : String) :
    (∃ holding weights, (find register).run space = .ok holding space ∧
      Kept space registers register holding weights) ∨
    (registers.lookup register = none ∧
      (find register).run space = .error (.register (.unset register)) space) := by
  have both := shown.holdings_isSome register
  cases found : space.holdings.lookup register with
  | none =>
      rw [found] at both
      exact .inr ⟨Option.isNone_iff_eq_none.mp (by rw [← Option.not_isSome, ← both]; rfl),
        look_of_none found⟩
  | some holding =>
      rw [found] at both
      obtain ⟨weights, held⟩ := Option.isSome_iff_exists.mp both.symm
      have places : ∀ table, space.place? register table = some (holding.place table) := by
        intro table
        rw [place?, found]
        rfl
      exact .inl ⟨holding, weights, look_of_some found,
        ⟨held, places, fun table => shown.lists_eq (places table) held⟩⟩

theorem Kept.load_run {register : String} {holding : Holding} {weights : Weights}
    (kept : Kept space registers register holding weights) (table : WeightTable) :
    (load (holding.place table)).run space = .ok (weights.list table) space :=
  look_of_some (kept.lists table)

theorem find_mirrors (shown : space.Shows registers) {register : String} {request : RegisterStep}
    {next : Holding → Work WorkAnswer}
    {rest : Weights → Except RegisterError (RegisterAnswer × Registers)}
    (running : registers.step request = registers.read register >>= rest)
    (further : ∀ {holding weights}, Kept space registers register holding weights →
      registers.step request = rest weights → Mirrors registers request ((next holding).run space)) :
    Mirrors registers request ((find register >>= next).run space) := by
  rcases find_cases shown register with ⟨holding, weights, ran, kept⟩ | ⟨unset, ran⟩
  · rw [bind_of_ok ran]
    rw [Registers.read_eq_ok.mpr kept.held] at running
    exact further kept running
  · rw [bind_of_error ran]
    rw [Registers.read_unset unset] at running
    exact .error running shown

theorem readSlot_mirrors (shown : space.Shows registers) {register : String} {holding : Holding}
    {weights : Weights} (kept : Kept space registers register holding weights) {member : Member}
    {request : RegisterStep} {next : Double → Work WorkAnswer}
    {rest : WeightSlot → Except RegisterError (RegisterAnswer × Registers)}
    (running : registers.step request = Registers.slot member >>= rest)
    (further : ∀ {slot}, Registers.slot member = .ok slot → registers.step request = rest slot →
      Mirrors registers request ((next (weights.get slot)).run space)) :
    Mirrors registers request ((readSlot holding member >>= next).run space) := by
  cases known : Registers.slot member with
  | error e =>
      have failed : (readSlot holding member).run space = .error (.register e) space := by
        unfold readSlot slotPlace
        rw [known]
        rfl
      rw [bind_of_error failed]
      rw [known] at running
      exact .error running shown
  | ok slot =>
      have read : (readSlot holding member).run space = .ok (weights.get slot) space := by
        unfold readSlot slotPlace
        rw [known]
        change (load (holding.place slot.table) >>= fun values =>
          look (fun _ => values[slot.index]?) .outside).run space = _
        rw [bind_of_ok (kept.load_run slot.table)]
        exact look_of_some (weights.getElem?_list slot)
      rw [bind_of_ok read]
      rw [known] at running
      exact further known running

theorem construct_mirrors (shown : space.Shows registers) {register : String}
    {exprs types : Option (List Double)} {request : RegisterStep}
    (stores : registers.step request = registers.store register (Weights.ofLists exprs types)) :
    Mirrors registers request ((construct register exprs types).run space) := by
  rcases construct_cases space register exprs types with
    ⟨weights, legal, ran⟩ | ⟨e, more, refused, ran⟩
  · rw [ran]
    rw [legal] at stores
    exact .ok stores (shown.settled register weights)
  · rw [ran]
    rw [refused] at stores
    exact .error stores (shown.grown more)

theorem writeSlot_mirrors (shown : space.Shows registers) {register : String} {holding : Holding}
    {weights : Weights} (kept : Kept space registers register holding weights) {member : Member}
    {value : Double} {request : RegisterStep}
    (running : registers.step request = (do
      let _ ← (Weight.check value).mapError .weight
      registers.store register (weights.set (← Registers.slot member) value))) :
    Mirrors registers request ((writeSlot holding member value).run space) := by
  unfold writeSlot slotPlace
  cases looked : Weight.check value with
  | error e =>
      rw [looked] at running
      exact .error running shown
  | ok weight =>
      rw [looked] at running
      cases known : Registers.slot member with
      | error e =>
          rw [known] at running
          exact .error running shown
      | ok slot =>
          rw [known] at running
          obtain ⟨after, replaced⟩ : ∃ after, weights.set slot value = .ok after := by
            rw [Weights.set, looked]
            exact ⟨_, rfl⟩
          have lists := Weights.list_set replaced
          have fits : slot.index < (weights.list slot.table).length := by
            rw [Weights.length_list]
            exact slot.index_lt
          have stored := running.trans (congrArg (registers.store register) replaced)
          -- The write is to one list of the register; its other list shows the new weights as it is.
          have rest : ∀ other, other ≠ slot.table → after.list other = weights.list other := by
            intro other apart
            rw [lists, if_neg (Ne.symm apart)]
          have written := shown.put_own (kept.places slot.table) kept.held rest
          rw [lists slot.table, if_pos rfl, ← Weight.val_of_check looked] at written
          change Mirrors _ _ ((load (holding.place slot.table) >>= fun values =>
            if slot.index < values.length then do
              modify (·.put (holding.place slot.table) (values.set slot.index weight.val))
              return .done
            else throw .outside).run space)
          rw [bind_of_ok (kept.load_run slot.table), if_pos fits]
          exact .ok stored written

theorem same_eq (weights other : Weights) :
    weights.same other = (listsEqual (weights.list .exprKinds) (other.list .exprKinds) &&
      listsEqual (weights.list .typeKinds) (other.list .typeKinds)) := by
  have exprs := (weights.length_list .exprKinds).trans (other.length_list .exprKinds).symm
  have types := (weights.length_list .typeKinds).trans (other.length_list .typeKinds).symm
  have whole : weights.same other = (List.zipWith Double.equals
      (weights.list .exprKinds ++ weights.list .typeKinds)
      (other.list .exprKinds ++ other.list .typeKinds)).all id := rfl
  rw [whole, List.zipWith_append exprs, List.all_append, listsEqual, listsEqual, exprs, types,
    beq_self_eq_true, beq_self_eq_true, Bool.true_and, Bool.true_and]

theorem callerList_run {which : Option Nat} {values : Option (List Double)}
    (given : space.argument? which = some values) :
    (callerList which).run space = .ok values space := by
  cases which with
  | none =>
      cases given
      rfl
  | some which =>
      obtain ⟨list, found, rfl⟩ := Option.map_eq_some_iff.mp given
      obtain ⟨place, has, found⟩ := Option.bind_eq_some_iff.mp found
      have reached : (callerPlace which).run space = .ok place space := look_of_some has
      have loaded : (load place).run space = .ok list space := look_of_some found
      rw [callerList, bind_of_ok reached, bind_of_ok loaded]
      rfl

theorem callerList_refused {which : Option Nat} (missing : space.argument? which = none) :
    ∃ e, (callerList which).run space = .error e space := by
  cases which with
  | none => cases missing
  | some which =>
      cases has : space.given[which]? with
      | none =>
          have reached : (callerPlace which).run space = .error (.noList which) space :=
            look_of_none has
          exact ⟨_, bind_of_error reached⟩
      | some place =>
          rw [argument?, has] at missing
          have reached : (callerPlace which).run space = .ok place space := look_of_some has
          have empty : (load place).run space = .error .outside space :=
            look_of_none (Option.map_eq_none_iff.mp missing)
          exact ⟨.outside, by rw [callerList, bind_of_ok reached, bind_of_error empty]⟩

/-- A step that amounts to a request goes as the request does. -/
theorem step_mirrors (shown : space.Shows registers) {next : WorkStep} {request : RegisterStep}
    (asked : space.request? next = some request) :
    Mirrors registers request ((step next).run space) := by
  cases next with
  | list values => cases asked
  | overwrite which values => cases asked
  | hand register table =>
      cases asked
      refine find_mirrors shown rfl fun kept running => ?_
      rw [bind_of_ok (kept.load_run table), bind_of_ok (allocate_run _ _)]
      exact .ok running (shown.handed_new _)
  | build register exprs types =>
      obtain ⟨exprValues, exprsGiven, rest⟩ := Option.bind_eq_some_iff.mp asked
      obtain ⟨typeValues, typesGiven, same⟩ := Option.bind_eq_some_iff.mp rest
      cases same
      rw [step, bind_of_ok (callerList_run exprsGiven), bind_of_ok (callerList_run typesGiven)]
      exact construct_mirrors shown rfl
  | configure register config =>
      cases asked
      exact construct_mirrors shown rfl
  | copy register source =>
      cases asked
      refine find_mirrors shown rfl fun {holding weights} kept running => ?_
      have exprs : (load holding.exprs).run space = .ok weights.exprList space :=
        kept.load_run .exprKinds
      have types : (load holding.types).run space = .ok weights.typeList space :=
        kept.load_run .typeKinds
      rw [bind_of_ok exprs, bind_of_ok types]
      rw [← Weights.ofLists_lists weights] at running
      exact construct_mirrors shown running
  | get register member =>
      cases asked
      refine find_mirrors shown rfl fun kept running => ?_
      exact readSlot_mirrors shown kept running fun _ returned => .ok returned shown
  | set register member value =>
      cases asked
      exact find_mirrors shown rfl fun kept running => writeSlot_mirrors shown kept running
  | scale register member factor =>
      cases asked
      refine find_mirrors shown rfl fun {_ weights} kept running => ?_
      refine readSlot_mirrors shown kept running fun {slot} known running => ?_
      refine writeSlot_mirrors shown kept (running.trans ?_)
      rw [known]
      unfold Weights.scale Weights.set
      cases Weight.check ((weights.get slot).mul factor) <;> rfl
  | compare register other =>
      cases asked
      refine find_mirrors shown rfl fun {first weights} kept running => ?_
      refine find_mirrors shown running fun {second others} keptToo running => ?_
      rw [same_eq] at running
      have exprs : (load first.exprs).run space = _ := kept.load_run .exprKinds
      have types : (load first.types).run space = _ := kept.load_run .typeKinds
      have otherExprs : (load second.exprs).run space = _ := keptToo.load_run .exprKinds
      have otherTypes : (load second.types).run space = _ := keptToo.load_run .typeKinds
      rw [bind_of_ok exprs, bind_of_ok otherExprs, bind_of_ok types, bind_of_ok otherTypes]
      exact .ok running shown
  | compareList register values =>
      cases asked
      exact find_mirrors shown rfl fun _ returned => .ok returned shown

/-- A step that amounts to no request is about lists that no register has. -/
theorem after_unasked (shown : space.Shows registers) {next : WorkStep}
    (unasked : space.request? next = none) : (space.after next).Shows registers := by
  cases next with
  | list values => exact shown.handed_new values
  | overwrite which values =>
      unfold after step
      cases has : space.given[which]? with
      | none =>
          have reached : (callerPlace which).run space = .error (.noList which) space :=
            look_of_none has
          rw [bind_of_error reached]
          exact shown
      | some place =>
          have reached : (callerPlace which).run space = .ok place space := look_of_some has
          rw [bind_of_ok reached]
          exact shown.put_given (List.mem_of_getElem? has) values
  | build register exprs types =>
      unfold after step
      cases exprsGiven : space.argument? exprs with
      | none =>
          obtain ⟨e, refused⟩ := callerList_refused exprsGiven
          rw [bind_of_error refused]
          exact shown
      | some exprValues =>
          cases typesGiven : space.argument? types with
          | none =>
              obtain ⟨e, refused⟩ := callerList_refused typesGiven
              rw [bind_of_ok (callerList_run exprsGiven), bind_of_error refused]
              exact shown
          | some typeValues =>
              rw [request?, exprsGiven, typesGiven] at unasked
              cases unasked
  | hand register table => cases unasked
  | configure register config => cases unasked
  | copy register source => cases unasked
  | get register member => cases unasked
  | set register member value => cases unasked
  | scale register member factor => cases unasked
  | compare register other => cases unasked
  | compareList register values => cases unasked

end Steps
end Workspace
end CExpr
