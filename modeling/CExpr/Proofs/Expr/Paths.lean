import CExpr.Expr.Basic

/-!
The nodes of a tree by the ways that lead to them. Equal trees may stand at several places of a tree,
and the path from the root is what tells them apart. All paths are listed in the order of a visit: a
path comes before another one exactly if it leads to a node above, or turns off to the left of it. The
depth of a tree is one more than the most nodes that are above a single one.
-/
namespace CExpr.Expr

/-- The way from the root of a tree to a node: which child comes next, counted from zero. -/
abbrev Path := List Nat

namespace Path

def Above (path other : Path) : Prop := path <+: other ∧ path ≠ other

/-- The two paths part at some node, and this one goes on to an earlier child of that node. -/
def LeftOf (path other : Path) : Prop :=
  ∃ (fork : Path) (left right : Nat) (rest rest' : Path),
    left < right ∧ path = fork ++ left :: rest ∧ other = fork ++ right :: rest'

def Before (path other : Path) : Prop := path.Above other ∨ path.LeftOf other

instance (path other : Path) : Decidable (path.Above other) :=
  inferInstanceAs (Decidable (_ ∧ _))

variable {path other : Path} {i j : Nat}

theorem above_nil : ¬ Above path [] := fun above => above.2 (List.prefix_nil.mp above.1)

theorem nil_above_cons : Above [] (j :: other) :=
  ⟨List.nil_prefix, (List.cons_ne_nil j other).symm⟩

theorem above_cons_cons : Above (i :: path) (j :: other) ↔ i = j ∧ path.Above other := by
  unfold Above
  rw [List.cons_prefix_cons, Ne, List.cons.injEq]
  grind

theorem leftOf_cons_cons :
    LeftOf (i :: path) (j :: other) ↔ i < j ∨ i = j ∧ path.LeftOf other := by
  constructor
  · rintro ⟨fork, left, right, rest, rest', less, here, there⟩
    cases fork with
    | nil =>
        cases here
        cases there
        exact .inl less
    | cons next fork =>
        cases here
        cases there
        exact .inr ⟨rfl, fork, left, right, rest, rest', less, rfl, rfl⟩
  · rintro (less | ⟨rfl, fork, left, right, rest, rest', less, rfl, rfl⟩)
    · exact ⟨[], i, j, path, other, less, rfl, rfl⟩
    · exact ⟨i :: fork, left, right, rest, rest', less, rfl, rfl⟩

theorem before_nil : ¬ Before path [] := by
  rintro (above | ⟨fork, _, _, _, _, _, _, there⟩)
  · exact above_nil above
  · cases fork <;> cases there

theorem before_cons_cons :
    Before (i :: path) (j :: other) ↔ i < j ∨ i = j ∧ path.Before other := by
  unfold Before
  rw [above_cons_cons, leftOf_cons_cons, and_or_left, or_left_comm]

theorem Before.asymm (before : path.Before other) : ¬ other.Before path := by
  induction path generalizing other with
  | nil => exact before_nil
  | cons i path ih =>
      cases other with
      | nil => exact absurd before before_nil
      | cons j other =>
          rw [before_cons_cons] at before ⊢
          rintro (less | ⟨rfl, after⟩)
          · omega
          · exact ih (before.elim (absurd · (Nat.lt_irrefl j)) And.right) after

theorem Before.ne (before : path.Before other) : path ≠ other := by
  rintro rfl
  exact before.asymm before

def under (next : Nat) (paths : List Path) : List Path := paths.map (next :: ·)

variable {paths : List Path}

theorem mem_under : i :: path ∈ under j paths ↔ i = j ∧ path ∈ paths := by
  simp only [under, List.mem_map, List.cons.injEq]
  grind

theorem exists_of_mem_under (member : path ∈ under i paths) : ∃ rest, path = i :: rest := by
  obtain ⟨rest, _, rfl⟩ := List.mem_map.mp member
  exact ⟨rest, rfl⟩

theorem nil_before_of_mem_under (member : path ∈ under i paths) : Before [] path := by
  obtain ⟨rest, rfl⟩ := exists_of_mem_under member
  exact .inl nil_above_cons

theorem pairwise_under (ordered : paths.Pairwise Before) (i : Nat) :
    (under i paths).Pairwise Before :=
  List.pairwise_map.mpr (ordered.imp fun before => before_cons_cons.mpr (.inr ⟨rfl, before⟩))

def countAbove (paths : List Path) (path : Path) : Nat :=
  paths.countP fun above => decide (Above above path)

theorem countAbove_nil (paths : List Path) : countAbove paths [] = 0 :=
  List.countP_eq_zero.mpr fun _ _ => by simp [above_nil]

theorem countAbove_root (paths : List Path) (i : Nat) (path : Path) :
    countAbove ([] :: paths) (i :: path) = countAbove paths (i :: path) + 1 :=
  List.countP_cons_of_pos (decide_eq_true nil_above_cons)

theorem countAbove_under (paths : List Path) (i j : Nat) (path : Path) :
    countAbove (under i paths) (j :: path) = if i = j then countAbove paths path else 0 := by
  unfold countAbove under
  rw [List.countP_map]
  split
  · subst j
    exact List.countP_congr fun above _ => by simp [above_cons_cons]
  · exact List.countP_eq_zero.mpr fun above _ => by simp [above_cons_cons, *]

theorem countAbove_append (paths others : List Path) (path : Path) :
    countAbove (paths ++ others) path = countAbove paths path + countAbove others path :=
  List.countP_append

end Path

def node? : Expr → Path → Option Expr
  | e, [] => some e
  | e, next :: rest => e.children[next]?.bind (·.node? rest)

def paths : Expr → List Path
  | unary _ operand => [] :: Path.under 0 operand.paths
  | binary _ lhs rhs => [] :: (Path.under 0 lhs.paths ++ Path.under 1 rhs.paths)
  | parens inner => [] :: Path.under 0 inner.paths
  | _ => [[]]

variable {e : Expr} {path other : Path} {i j : Nat}

theorem mem_paths : path ∈ e.paths ↔ (e.node? path).isSome = true := by
  induction e generalizing path with
  | integer value | double value | var name => cases path <;> simp [paths, node?, children]
  | unary op operand ih | parens operand ih =>
      rcases path with _ | ⟨_ | next, rest⟩
      · simp [paths, node?]
      · simp [paths, node?, children, Path.mem_under, ih]
      · simp [paths, node?, children, Path.mem_under]
  | binary op lhs rhs left right =>
      rcases path with _ | ⟨_ | _ | next, rest⟩
      · simp [paths, node?]
      · simp [paths, node?, children, Path.mem_under, left]
      · simp [paths, node?, children, Path.mem_under, right]
      · simp [paths, node?, children, Path.mem_under]

theorem cons_mem_paths :
    i :: path ∈ e.paths ↔ ∃ child, e.children[i]? = some child ∧ path ∈ child.paths := by
  simp only [mem_paths, node?, Option.isSome_bind, Option.any_eq_true]

theorem pairwise_paths (e : Expr) : e.paths.Pairwise Path.Before := by
  induction e with
  | integer value | double value | var name => exact List.pairwise_singleton _ _
  | unary op operand ih | parens operand ih =>
      exact List.pairwise_cons.mpr ⟨fun _ => Path.nil_before_of_mem_under, Path.pairwise_under ih 0⟩
  | binary op lhs rhs left right =>
      refine List.pairwise_cons.mpr ⟨fun other member => ?_, ?_⟩
      · exact (List.mem_append.mp member).elim Path.nil_before_of_mem_under
          Path.nil_before_of_mem_under
      · refine List.pairwise_append.mpr ⟨Path.pairwise_under left 0, Path.pairwise_under right 1, ?_⟩
        intro path inLeft other inRight
        obtain ⟨_, rfl⟩ := Path.exists_of_mem_under inLeft
        obtain ⟨_, rfl⟩ := Path.exists_of_mem_under inRight
        exact Path.before_cons_cons.mpr (.inl Nat.zero_lt_one)

/-- Every node is listed once, by the only path that leads to it. -/
theorem count_paths (e : Expr) (path : Path) :
    e.paths.count path = if (e.node? path).isSome then 1 else 0 := by
  have distinct : e.paths.Nodup := (pairwise_paths e).imp Path.Before.ne
  rw [distinct.count]
  simp only [mem_paths]

/-- One node is listed before another exactly if it is above it, or to the left of it. -/
theorem lt_iff_before (here : e.paths[i]? = some path) (there : e.paths[j]? = some other) :
    i < j ↔ path.Before other := by
  obtain ⟨inside, rfl⟩ := List.getElem?_eq_some_iff.mp here
  obtain ⟨inside', rfl⟩ := List.getElem?_eq_some_iff.mp there
  have ordered := List.pairwise_iff_getElem.mp (pairwise_paths e)
  refine ⟨ordered i j inside inside', fun before => ?_⟩
  rcases Nat.lt_trichotomy i j with less | rfl | greater
  · exact less
  · exact absurd rfl before.ne
  · exact absurd before (ordered j i inside' inside greater).asymm

theorem countAbove_cons {child : Expr} (found : e.children[i]? = some child) (path : Path) :
    Path.countAbove e.paths (i :: path) = Path.countAbove child.paths path + 1 := by
  cases e with
  | integer value | double value | var name => cases found
  | unary op operand | parens operand =>
      obtain ⟨rfl, rfl⟩ : i = 0 ∧ operand = child := by
        simpa [children, List.getElem?_singleton] using found
      rw [paths, Path.countAbove_root, Path.countAbove_under, if_pos rfl]
  | binary op lhs rhs =>
      rw [paths, Path.countAbove_root, Path.countAbove_append, Path.countAbove_under,
        Path.countAbove_under]
      rcases i with _ | _ | i
      · cases found
        rfl
      · cases found
        rw [if_neg Nat.zero_ne_one, if_pos rfl, Nat.zero_add]
      · cases found

theorem countAbove_paths (member : path ∈ e.paths) : Path.countAbove e.paths path = path.length := by
  induction path generalizing e with
  | nil => exact Path.countAbove_nil e.paths
  | cons next rest ih =>
      obtain ⟨child, found, below⟩ := cons_mem_paths.mp member
      rw [countAbove_cons found, ih below, List.length_cons]

theorem depth_lt_of_child {child : Expr} (found : e.children[i]? = some child) :
    child.depth < e.depth := by
  have member := List.mem_of_getElem? found
  cases e with
  | integer value | double value | var name => cases member
  | unary op operand | parens operand =>
      rw [List.mem_singleton.mp member]
      exact Nat.lt_succ_self _
  | binary op lhs rhs =>
      refine Nat.lt_succ_of_le ?_
      rcases (List.mem_cons.mp member).imp_right List.mem_singleton.mp with rfl | rfl
      · exact Nat.le_max_left _ _
      · exact Nat.le_max_right _ _

theorem length_lt_depth (member : path ∈ e.paths) : path.length < e.depth := by
  induction path generalizing e with
  | nil => cases e <;> exact Nat.succ_pos _
  | cons next rest ih =>
      obtain ⟨child, found, below⟩ := cons_mem_paths.mp member
      exact Nat.lt_of_le_of_lt (ih below) (depth_lt_of_child found)

theorem exists_length_eq_depth (e : Expr) : ∃ path ∈ e.paths, path.length + 1 = e.depth := by
  induction e with
  | integer value | double value | var name => exact ⟨[], List.mem_singleton_self [], rfl⟩
  | unary op operand ih | parens operand ih =>
      obtain ⟨path, member, deepest⟩ := ih
      exact ⟨0 :: path, cons_mem_paths.mpr ⟨operand, rfl, member⟩, congrArg (· + 1) deepest⟩
  | binary op lhs rhs left right =>
      rcases Nat.le_total lhs.depth rhs.depth with deeper | deeper
      · obtain ⟨path, member, deepest⟩ := right
        refine ⟨1 :: path, cons_mem_paths.mpr ⟨rhs, rfl, member⟩, ?_⟩
        rw [depth, Nat.max_eq_right deeper, ← deepest, List.length_cons]
      · obtain ⟨path, member, deepest⟩ := left
        refine ⟨0 :: path, cons_mem_paths.mpr ⟨lhs, rfl, member⟩, ?_⟩
        rw [depth, Nat.max_eq_left deeper, ← deepest, List.length_cons]

/-- The depth in terms of the nodes alone: a node at the end of a longest path has the most above it. -/
theorem exists_depth_eq (e : Expr) :
    ∃ most, e.depth = 1 + most ∧ (∃ path ∈ e.paths, Path.countAbove e.paths path = most) ∧
      ∀ path ∈ e.paths, Path.countAbove e.paths path ≤ most := by
  obtain ⟨path, member, deepest⟩ := e.exists_length_eq_depth
  refine ⟨path.length, ?_, ⟨path, member, countAbove_paths member⟩, fun other among => ?_⟩
  · rw [← deepest, Nat.add_comm]
  · have := length_lt_depth among
    rw [countAbove_paths among]
    omega

end CExpr.Expr
