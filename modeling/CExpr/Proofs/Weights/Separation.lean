import CExpr.Proofs.Weights.Registers
import CExpr.Proofs.Weights.Workspace

/-!
Weights that have their lists to themselves. As long as no list belongs to two registers or to two
tables of one register, and none that belongs to a register is in the hands of the caller, what the
places hold is what the registers hold, and each kind of write to the store keeps it so: new lists at
the end, a list handed out that is no one's, whatever the caller does to lists of its own, one slot of
the list that the slot is in, and new lists for a register.
-/
namespace CExpr.Workspace

def place? (space : Workspace) (register : String) (table : WeightTable) : Option Nat :=
  (space.holdings.lookup register).map (·.place table)

def contents (space : Workspace) (register : String) (table : WeightTable) :
    Option (List Double) :=
  (space.place? register table).bind (space.lists[·]?)

structure Separate (space : Workspace) : Prop where
  inside : ∀ {register table place}, space.place? register table = some place →
    place < space.lists.length
  own : ∀ {register table other otherTable place}, space.place? register table = some place →
    space.place? other otherTable = some place → register = other ∧ table = otherTable
  givenInside : ∀ place ∈ space.given, place < space.lists.length
  unshared : ∀ {register table place}, space.place? register table = some place →
    place ∉ space.given

/-- The places of a store hold what the registers hold, each in lists of its own. -/
structure Shows (space : Workspace) (registers : Registers) : Prop extends Separate space where
  shows : ∀ register table, space.contents register table = registers.contents register table

variable {space : Workspace} {registers : Registers}

theorem contents_congr {after : Workspace} {register : String} {table : WeightTable}
    (places : after.place? register table = space.place? register table)
    (same : ∀ place, space.place? register table = some place →
      after.lists[place]? = space.lists[place]?) :
    after.contents register table = space.contents register table := by
  unfold contents
  rw [places]
  cases found : space.place? register table with
  | none => rfl
  | some place => exact same place found

theorem place?_held (space : Workspace) (register other : String) (holding : Holding)
    (table : WeightTable) :
    (space.held register holding).place? other table =
      if register = other then some (holding.place table) else space.place? other table := by
  unfold place? held
  rw [lookup_replace]
  split <;> rfl

theorem grown_grown (space : Workspace) (more later : List (List Double)) :
    (space.grown more).grown later = space.grown (more ++ later) := by
  simp only [grown, List.append_assoc]

theorem length_grown (space : Workspace) (more : List (List Double)) :
    (space.grown more).lists.length = space.lists.length + more.length := List.length_append

def settled (space : Workspace) (register : String) (weights : Weights) : Workspace :=
  (space.grown [weights.exprList, weights.typeList]).held register
    ⟨space.lists.length, space.lists.length + 1⟩

theorem settled_lists (space : Workspace) (register : String) (weights : Weights) :
    (space.settled register weights).lists =
      space.lists ++ [weights.exprList, weights.typeList] := rfl

theorem settled_place {register other : String} {weights : Weights} {table : WeightTable}
    {place : Nat} (found : (space.settled register weights).place? other table = some place) :
    (register = other ∧ place = space.lists.length + (if table = .exprKinds then 0 else 1)) ∨
      (register ≠ other ∧ space.place? other table = some place) := by
  rw [settled, place?_held] at found
  by_cases same : register = other
  · rw [if_pos same] at found
    cases table <;> cases found <;> exact .inl ⟨same, rfl⟩
  · rw [if_neg same] at found
    exact .inr ⟨same, found⟩

theorem shows_empty : empty.Shows [] where
  inside := by intro _ _ _ found; cases found
  own := by intro _ _ _ _ _ found; cases found
  givenInside := by intro _ member; cases member
  unshared := by intro _ _ _ found; cases found
  shows := by intro _ _; rfl

theorem Separate.put (separate : space.Separate) (place : Nat) (values : List Double) :
    (space.put place values).Separate where
  inside found := by
    simp only [Workspace.put, List.length_set]
    exact separate.inside found
  own := separate.own
  givenInside other member := by
    simp only [Workspace.put, List.length_set]
    exact separate.givenInside other member
  unshared := separate.unshared

namespace Shows

theorem lists_eq (shown : space.Shows registers) {register : String} {table : WeightTable}
    {place : Nat} (found : space.place? register table = some place) {weights : Weights}
    (held : registers.lookup register = some weights) :
    space.lists[place]? = some (weights.list table) := by
  have same := shown.shows register table
  rw [contents, found, Registers.contents, held] at same
  exact same

theorem holdings_isSome (shown : space.Shows registers) (register : String) :
    (space.holdings.lookup register).isSome = (registers.lookup register).isSome := by
  have same := shown.shows register .exprKinds
  unfold contents place? Registers.contents at same
  cases kept : space.holdings.lookup register with
  | none =>
      rw [kept] at same
      cases held : registers.lookup register with
      | none => rfl
      | some weights =>
          rw [held] at same
          cases same
  | some holding =>
      have found : space.place? register .exprKinds = some holding.exprs := by
        rw [place?, kept]
        rfl
      rw [kept] at same
      cases held : registers.lookup register with
      | none =>
          rw [held] at same
          exact absurd (List.getElem?_eq_none_iff.mp same) (Nat.not_le.mpr (shown.inside found))
      | some weights => rfl

theorem grown (shown : space.Shows registers) (more : List (List Double)) :
    (space.grown more).Shows registers where
  inside found := by
    have inside := shown.inside found
    simp only [Workspace.grown, List.length_append]
    omega
  own := shown.own
  givenInside place member := by
    have inside := shown.givenInside place member
    simp only [Workspace.grown, List.length_append]
    omega
  unshared := shown.unshared
  shows register table := by
    rw [← shown.shows register table]
    exact contents_congr rfl fun _ found => List.getElem?_append_left (shown.inside found)

theorem handed (shown : space.Shows registers) {place : Nat} (inside : place < space.lists.length)
    (free : ∀ register table, space.place? register table ≠ some place) :
    (space.handed place).Shows registers where
  inside := shown.inside
  own := shown.own
  givenInside other member := by
    rcases List.mem_append.mp member with before | new
    · exact shown.givenInside other before
    · cases List.mem_singleton.mp new
      exact inside
  unshared := by
    intro register table other found member
    rcases List.mem_append.mp member with before | new
    · exact shown.unshared found before
    · cases List.mem_singleton.mp new
      exact free register table found
  shows := shown.shows

theorem handed_new (shown : space.Shows registers) (values : List Double) :
    ((space.grown [values]).handed space.lists.length).Shows registers := by
  refine (shown.grown [values]).handed ?_ ?_
  · rw [length_grown]
    exact Nat.lt_succ_self _
  · intro register table found
    exact Nat.lt_irrefl _ (shown.inside found)

/-- Whatever the caller writes to a list of its own, the registers do not notice. -/
theorem put_given (shown : space.Shows registers) {place : Nat} (mine : place ∈ space.given)
    (values : List Double) : (space.put place values).Shows registers where
  toSeparate := shown.toSeparate.put place values
  shows register table := by
    rw [← shown.shows register table]
    refine contents_congr rfl fun other found => List.getElem?_set_ne ?_
    rintro rfl
    exact shown.unshared found mine

/-- A write to one list of a register shows the weights that differ from the old ones in this list. -/
theorem put_own (shown : space.Shows registers) {register : String} {table : WeightTable}
    {place : Nat} (found : space.place? register table = some place) {weights after : Weights}
    (held : registers.lookup register = some weights)
    (rest : ∀ other, other ≠ table → after.list other = weights.list other) :
    (space.put place (after.list table)).Shows (registers.write register after) where
  toSeparate := shown.toSeparate.put place (after.list table)
  shows other otherTable := by
    rw [Registers.contents_write]
    -- The list that is written, another one, and of these the other list of the register itself.
    by_cases same : register = other ∧ table = otherTable
    · obtain ⟨rfl, rfl⟩ := same
      have still : (space.put place (after.list table)).place? register table = some place := found
      rw [if_pos rfl, contents, still]
      exact List.getElem?_set_self (shown.inside found)
    · have frame : (space.put place (after.list table)).contents other otherTable =
          space.contents other otherTable := by
        refine contents_congr rfl fun otherPlace elsewhere => List.getElem?_set_ne ?_
        rintro rfl
        exact same (shown.own found elsewhere)
      rw [frame, shown.shows]
      by_cases sameRegister : register = other
      · subst sameRegister
        have otherList : otherTable ≠ table := by
          rintro rfl
          exact same ⟨rfl, rfl⟩
        rw [if_pos rfl, Registers.contents, held, rest otherTable otherList]
        rfl
      · rw [if_neg sameRegister]

theorem settled (shown : space.Shows registers) (register : String) (weights : Weights) :
    (space.settled register weights).Shows (registers.write register weights) where
  inside found := by
    rw [settled_lists, List.length_append]
    change _ < _ + 2
    rcases settled_place found with ⟨_, rfl⟩ | ⟨_, before⟩
    · split <;> omega
    · have inside := shown.inside before
      omega
  own {_ table _ otherTable _} found again := by
    rcases settled_place found with ⟨rfl, rfl⟩ | ⟨_, before⟩
    · rcases settled_place again with ⟨rfl, same⟩ | ⟨_, before⟩
      · cases table <;> cases otherTable <;> simp_all
      · have inside := shown.inside before
        omega
    · rcases settled_place again with ⟨rfl, rfl⟩ | ⟨_, beforeToo⟩
      · have inside := shown.inside before
        omega
      · exact shown.own before beforeToo
  givenInside := (shown.grown [weights.exprList, weights.typeList]).givenInside
  unshared found member := by
    rcases settled_place found with ⟨_, rfl⟩ | ⟨_, before⟩
    · have inside := shown.givenInside _ member
      omega
    · exact shown.unshared before member
  shows other table := by
    rw [Registers.contents_write]
    by_cases same : register = other
    · rw [if_pos same, contents, Workspace.settled, place?_held, if_pos same]
      cases table <;> simp [held, Workspace.grown, Holding.place, Weights.list]
    · rw [if_neg same, ← shown.shows other table]
      refine contents_congr ?_ fun place found => ?_
      · rw [Workspace.settled, place?_held, if_neg same]
        rfl
      · exact List.getElem?_append_left (shown.inside found)

end Shows
end CExpr.Workspace
