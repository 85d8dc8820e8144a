import CExpr.Generator
import CExpr.Proofs.Draw.Log
import CExpr.Proofs.Weights.Slots

/-!
The weights behind every choice of a run. A node of a tree has its place below the nodes above it,
and the weights by which its kind is drawn are the initial ones, dampened along that place and by
nothing else. The choices of a run tell which place is next: a kind with operands opens a place for
each of them, and these are filled before any that was opened earlier. This holds of every run from
every source, of those that fail up to where they fail.
-/
namespace CExpr

def ExprKind.operands : ExprKind → Nat
  | binaryExpr => 2
  | unaryExpr => 1
  | _ => 0

/-- The kinds of the nodes above a node, the root first. Parentheses do not count. -/
abbrev Place := List ExprKind

namespace Config

/-- The initial weight of a kind, dampened once for each node of the same kind above, from the root
down. -/
def weightAt (config : Config) (place : Place) (kind : ExprKind) : Double :=
  place.foldl
    (fun weight above =>
      if above = kind then weight.mul (config.exprKind kind).dampening else weight)
    (config.exprKind kind).initial

def weightsAt (config : Config) (place : Place) : List Double :=
  ExprKind.all.map (config.weightAt place)

variable {config : Config}

theorem weightAt_snoc (place : Place) (above kind : ExprKind) :
    config.weightAt (place ++ [above]) kind =
      if above = kind then (config.weightAt place kind).mul (config.exprKind kind).dampening
      else config.weightAt place kind := by
  rw [weightAt, List.foldl_append]
  rfl

theorem weightAt_of_not_mem {place : Place} {kind : ExprKind} (absent : kind ∉ place) :
    config.weightAt place kind = (config.exprKind kind).initial := by
  unfold weightAt
  generalize (config.exprKind kind).initial = weight
  induction place with
  | nil => rfl
  | cons above rest ih =>
      have differs : above ≠ kind := fun same => absent (same ▸ List.mem_cons_self)
      rw [List.foldl_cons, if_neg differs]
      exact ih fun member => absent (List.mem_cons_of_mem _ member)

end Config

abbrev Choice := List Double × Except DrawError Int

def DrawEvent.choice? : DrawEvent → Option Choice
  | choice weights answer => some (weights, answer)
  | _ => none

def DrawLog.choices (log : DrawLog) : List Choice := log.filterMap DrawEvent.choice?

/-- Choices that are made for open places, the first of them first. Each has the weights of its
place, and the kind that it gives says how many places it opens. A run may break off anywhere, also
with an answer that is no kind. -/
inductive Follows (config : Config) : List Place → List Choice → Prop
  | done (pending : List Place) : Follows config pending []
  | last (place : Place) (pending : List Place) (answer : Except DrawError Int) :
      Follows config (place :: pending) [(config.weightsAt place, answer)]
  | chosen {place : Place} {pending : List Place} {rest : List Choice} (kind : ExprKind) :
      Follows config (List.replicate kind.operands (place ++ [kind]) ++ pending) rest →
      Follows config (place :: pending) ((config.weightsAt place, .ok kind.index.val) :: rest)

/-- The choices for a tree at a place: one for every node but parentheses, each node before its
operands and the operands from left to right. -/
def Expr.choices (config : Config) : Expr → Place → List Choice
  | integer _, place => [(config.weightsAt place, .ok ExprKind.integerConstant.index.val)]
  | double _, place => [(config.weightsAt place, .ok ExprKind.doubleConstant.index.val)]
  | var _, place => [(config.weightsAt place, .ok ExprKind.variableExpr.index.val)]
  | unary _ operand, place =>
    (config.weightsAt place, .ok ExprKind.unaryExpr.index.val) ::
      operand.choices config (place ++ [.unaryExpr])
  | binary _ lhs rhs, place =>
    (config.weightsAt place, .ok ExprKind.binaryExpr.index.val) ::
      (lhs.choices config (place ++ [.binaryExpr]) ++ rhs.choices config (place ++ [.binaryExpr]))
  | parens inner, place => inner.choices config place

namespace Follows

variable {config : Config} {place : Place} {pending : List Place} {rest : List Choice}

theorem tree (e : Expr) (behind : Follows config pending rest) :
    Follows config (place :: pending) (e.choices config place ++ rest) := by
  induction e generalizing place pending rest with
  | integer value => exact .chosen .integerConstant behind
  | double value => exact .chosen .doubleConstant behind
  | var name => exact .chosen .variableExpr behind
  | unary op operand ih => exact .chosen .unaryExpr (ih behind)
  | binary op lhs rhs left right =>
      refine .chosen .binaryExpr ?_
      have operands := @left (place ++ [.binaryExpr]) _ _ (@right (place ++ [.binaryExpr]) _ _ behind)
      rw [← List.append_assoc] at operands
      exact operands
  | parens inner ih => exact ih behind

/-- Kinds without operands are never above a node, so they are never dampened. -/
theorem weights_of_leaf {kind : ExprKind} {choices : List Choice}
    (follows : Follows config pending choices)
    (above : ∀ place ∈ pending, ∀ kind ∈ place, 0 < kind.operands) (leaf : kind.operands = 0) :
    ∀ choice ∈ choices, choice.1[kind.index.val]? = some (config.exprKind kind).initial := by
  have initial : ∀ place : Place, (∀ kind ∈ place, 0 < kind.operands) →
      (config.weightsAt place)[kind.index.val]? = some (config.exprKind kind).initial := by
    intro place recursive
    have absent : kind ∉ place := fun member => Nat.ne_of_gt (recursive kind member) leaf
    rw [Config.weightsAt, List.getElem?_map, kind.all_getElem?_index,
      ← Config.weightAt_of_not_mem absent]
    rfl
  induction follows with
  | done pending => exact List.forall_mem_nil _
  | last place pending answer =>
      exact List.forall_mem_singleton.mpr (initial place (above place List.mem_cons_self))
  | @chosen place pending rest parent _ ih =>
      have here := above place List.mem_cons_self
      refine List.forall_mem_cons.mpr ⟨initial place here, ih ?_⟩
      intro next member
      rcases List.mem_append.mp member with opened | earlier
      · -- A place that the choice has opened is one step below the place it was made for.
        obtain ⟨nonzero, rfl⟩ := List.mem_replicate.mp opened
        intro kind member
        rcases List.mem_append.mp member with higher | last
        · exact here kind higher
        · cases List.mem_singleton.mp last
          exact Nat.pos_of_ne_zero nonzero
      · exact above next (List.mem_cons_of_mem _ earlier)

end Follows

namespace DrawLog

theorem choices_append (first second : DrawLog) :
    (first ++ second : DrawLog).choices = first.choices ++ second.choices :=
  List.filterMap_append

end DrawLog

namespace Weights

def IsAt (weights : Weights) (config : Config) (place : Place) : Prop :=
  ∀ kind, weights.get (.expr kind) = config.weightAt place kind

variable {weights : Weights} {config : Config} {place : Place}

theorem IsAt.exprList (at_ : weights.IsAt config place) :
    weights.exprList = config.weightsAt place := by
  rw [exprList_eq]
  exact List.map_congr_left fun kind _ => at_ kind

theorem IsAt.scale (at_ : weights.IsAt config place) {kind : ExprKind} {dampened : Weights}
    (scaled : weights.scale (.expr kind) (config.exprKind kind).dampening = .ok dampened) :
    dampened.IsAt config (place ++ [kind]) := by
  intro other
  rw [get_scale scaled, Config.weightAt_snoc, at_ other]
  by_cases same : kind = other
  · rw [if_pos same, if_pos same, same]
  · rw [if_neg same, if_neg same]

theorem isAt_root {weights : Weights} {config : Config}
    (initial : weights.exprList = config.exprKinds.map (·.initial)) : weights.IsAt config [] := by
  intro kind
  have stands : weights.exprList[kind.index.val]? = some (weights.get (.expr kind)) := by
    rw [exprList_eq, List.getElem?_map, kind.all_getElem?_index]
    rfl
  rw [initial, List.getElem?_map] at stands
  obtain ⟨entry, found, same⟩ := Option.map_eq_some_iff.mp stands
  rw [← same, Config.weightAt, Config.exprKind, found]
  rfl

end Weights

namespace Expr

variable {config : Config} {place : Place}

theorem choices_guarded {p : Prop} [Decidable p] (e : Expr) :
    (if p then parens e else e).choices config place = e.choices config place := by
  split <;> rfl

theorem choices_binaryOf (op : BinOp) (lhs rhs : Expr) :
    (binaryOf op lhs rhs).choices config place = (binary op lhs rhs).choices config place := by
  simp only [binaryOf, choices, choices_guarded]

theorem choices_unaryOf (op : UnOp) (operand : Expr) :
    (unaryOf op operand).choices config place = (unary op operand).choices config place := by
  simp only [unaryOf, choices, choices_guarded]

end Expr
end CExpr
