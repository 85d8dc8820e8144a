import CExpr.Proofs.Expr.Nodes
import CExpr.Proofs.Expr.Paths

/-!
The visit of all nodes with a stack is the pre-order of the tree, and it ends. The loop takes a node
off the stack in every round and puts the node's children there, the leftmost on top. What the stack
stands for is the part of the tree that was not visited yet, so each round moves one node from what is
ahead to what was yielded, and there are as many rounds as there are nodes.
-/
namespace CExpr.Expr

theorem length_preorder (e : Expr) : e.preorder.length = e.size := by
  induction e with
  | integer value | double value | var name => rfl
  | unary op operand ih | parens operand ih => exact congrArg (· + 1) ih
  | binary op lhs rhs left right =>
      rw [preorder, List.length_cons, List.length_append, left, right, size]

/-- How far a visit has come: the stack, whose top is its end, and the nodes that were yielded. -/
structure Traversal where
  stack : List Expr
  yielded : List Expr

namespace Traversal

def start (e : Expr) : Traversal := ⟨[e], []⟩

/-- The node on top is yielded and its children take its place, from right to left. There is no round
when the stack is empty. -/
def round? (t : Traversal) : Option Traversal :=
  t.stack.getLast?.map fun node =>
    ⟨t.stack.dropLast ++ node.children.reverse, t.yielded ++ [node]⟩

def rounds? : Nat → Traversal → Option Traversal
  | 0, t => some t
  | count + 1, t => t.round?.bind (rounds? count)

def ahead (t : Traversal) : List Expr := visit t.stack.reverse

variable {t after : Traversal} {count : Nat}

theorem ahead_eq_nil : t.ahead = [] ↔ t.stack = [] := by
  unfold ahead
  rcases List.eq_nil_or_concat t.stack with empty | ⟨below, node, top⟩
  · simp [empty, visit]
  · simp [top, visit, List.concat_eq_append]

/-- A round moves the next node from what is ahead to what was yielded; without one nothing is ahead.
-/
theorem round_cases (t : Traversal) :
    t.round? = none ∧ t.ahead = [] ∨
      ∃ node after, t.round? = some after ∧ t.ahead = node :: after.ahead ∧
        after.yielded = t.yielded ++ [node] := by
  rcases List.eq_nil_or_concat t.stack with empty | ⟨below, node, top⟩
  · exact .inl ⟨by rw [round?, empty]; rfl, ahead_eq_nil.mpr empty⟩
  · rw [List.concat_eq_append] at top
    refine .inr ⟨node, ⟨below ++ node.children.reverse, t.yielded ++ [node]⟩, ?_, ?_, rfl⟩
    · rw [round?, top, List.getLast?_concat, List.dropLast_concat]
      rfl
    · rw [ahead, ahead, top, List.reverse_concat, visit, List.reverse_append, List.reverse_reverse]

theorem rounds_eq_none : t.rounds? count = none ↔ t.ahead.length < count := by
  induction count generalizing t with
  | zero => simp [rounds?]
  | succ count ih =>
      rcases t.round_cases with ⟨ended, nothing⟩ | ⟨node, after, made, moved, _⟩
      · rw [rounds?, ended, nothing]
        simp
      · rw [rounds?, made, moved, Option.bind_some, ih, List.length_cons, Nat.succ_lt_succ_iff]

theorem rounds_eq_some (made : t.rounds? count = some after) :
    after.yielded = t.yielded ++ t.ahead.take count ∧ after.ahead = t.ahead.drop count := by
  induction count generalizing t with
  | zero =>
      cases made
      exact ⟨(List.append_nil _).symm, rfl⟩
  | succ count ih =>
      rw [rounds?] at made
      rcases t.round_cases with ⟨ended, _⟩ | ⟨node, next, first, moved, yields⟩
      · rw [ended] at made
        cases made
      · rw [first] at made
        obtain ⟨yielded, ahead⟩ := ih made
        rw [moved, List.take_succ_cons, List.drop_succ_cons]
        exact ⟨by rw [yielded, yields, List.append_assoc]; rfl, ahead⟩

section Start

variable {e : Expr}

theorem length_ahead_start : (start e).ahead.length = e.size :=
  (congrArg List.length e.subexpressions_eq).trans e.length_preorder

theorem rounds_start_eq_none : (start e).rounds? count = none ↔ e.size < count := by
  rw [rounds_eq_none, length_ahead_start]

/-- Nothing is left on the stack once every node of the tree had its round, and not before. -/
theorem rounds_start_eq_some (made : (start e).rounds? count = some t) :
    t.yielded = e.subexpressions.take count ∧ (t.stack = [] ↔ count = e.size) := by
  obtain ⟨yielded, ahead⟩ := rounds_eq_some made
  have within : count ≤ e.size := by
    rw [← Nat.not_lt, ← rounds_start_eq_none, made]
    exact Option.some_ne_none t
  refine ⟨yielded, ?_⟩
  rw [← ahead_eq_nil, ahead, List.drop_eq_nil_iff, length_ahead_start]
  exact ⟨Nat.le_antisymm within, Nat.le_of_eq ∘ Eq.symm⟩

end Start
end Traversal

theorem map_under {e child : Expr} {i : Nat} (found : e.children[i]? = some child)
    (paths : List Path) : (Path.under i paths).map e.node? = paths.map child.node? := by
  rw [Path.under, List.map_map]
  refine List.map_congr_left fun path _ => ?_
  rw [Function.comp, node?, found, Option.bind_some]

theorem map_preorder (e : Expr) : e.preorder.map some = e.paths.map e.node? := by
  induction e with
  | integer value | double value | var name => rfl
  | unary op operand ih | parens operand ih =>
      rw [preorder, paths, List.map_cons, List.map_cons, map_under rfl, ih]
      rfl
  | binary op lhs rhs left right =>
      rw [preorder, paths, List.map_cons, List.map_cons, List.map_append, List.map_append,
        map_under rfl, map_under rfl, left, right]
      rfl

/-- The visit yields the pre-order. It ends after one round for every node, and what it has yielded
until then is the beginning of the pre-order. Every node has its turn exactly once, after all nodes above
it and all to the left of it and before all others. The depth of the tree is one more than the most nodes
that are above any of those that had their turn. -/
theorem subexpressions_preorder (e : Expr) :
    e.subexpressions = e.preorder ∧
    (∀ count, (Traversal.start e).rounds? count = none ↔ e.size < count) ∧
    (∀ count t, (Traversal.start e).rounds? count = some t →
      t.yielded = e.subexpressions.take count ∧ (t.stack = [] ↔ count = e.size)) ∧
    e.subexpressions.map some = e.paths.map e.node? ∧
    (∀ path, e.paths.count path = if (e.node? path).isSome then 1 else 0) ∧
    (∀ (i j : Nat) (path other : Path), e.paths[i]? = some path → e.paths[j]? = some other →
      (i < j ↔ path.Above other ∨ path.LeftOf other)) ∧
    ∃ most, e.depth = 1 + most ∧ (∃ path ∈ e.paths, Path.countAbove e.paths path = most) ∧
      ∀ path ∈ e.paths, Path.countAbove e.paths path ≤ most := by
  refine ⟨e.subexpressions_eq, fun count => Traversal.rounds_start_eq_none,
    fun count t => Traversal.rounds_start_eq_some, ?_, e.count_paths,
    fun i j path other => lt_iff_before, e.exists_depth_eq⟩
  rw [e.subexpressions_eq, e.map_preorder]

/-- `-(1 + 1)` after four of its five rounds. Its two ones are equal, and each of them has a turn. -/
theorem subexpressions_preorder_equal_operands :
    let sum := binary .plus (integer 1) (integer 1)
    let e := unary .neg (parens sum)
    e.subexpressions = [e, parens sum, sum, integer 1, integer 1] ∧
    (Traversal.start e).rounds? 4 = some ⟨[integer 1], [e, parens sum, sum, integer 1]⟩ ∧
    [e, parens sum, sum, integer 1] = e.subexpressions.take 4 ∧
    e.paths = [[], [0], [0, 0], [0, 0, 0], [0, 0, 1]] ∧ Path.LeftOf [0, 0, 0] [0, 0, 1] := by
  intro sum e
  obtain ⟨visited, _, yields, _, _, ordered, _⟩ := subexpressions_preorder e
  have fourth : (Traversal.start e).rounds? 4 =
      some ⟨[integer 1], [e, parens sum, sum, integer 1]⟩ := rfl
  have apart : ¬ Path.Above [0, 0, 0] [0, 0, 1] := by decide
  have earlier := (ordered 3 4 [0, 0, 0] [0, 0, 1] rfl rfl).mp (by decide)
  exact ⟨visited, fourth, (yields 4 _ fourth).1, rfl, earlier.resolve_left apart⟩

end CExpr.Expr
