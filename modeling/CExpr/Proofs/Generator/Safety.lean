import CExpr.Proofs.Draw.Lawful
import CExpr.Proofs.Generator.Stopping

/-!
A valid configuration never makes a draw fail. Every call of a run is legal, whatever was drawn
before it, so a lawful engine answers them all: a run ends with a tree, or where its grant ends, or
at its depth. The depth is reached by no run that has fewer draws than that.
-/
namespace CExpr

/-- How a draw that takes at least `cost` of what is left may end: all its calls are legal, and
answered but for the last one of a draw that breaks off. -/
def Ends {σ α : Type} (left : σ → Nat) (depth cost : Nat) (s : σ) :
    Except DrawError α → σ → DrawLog → Prop
  | .ok _, after, events =>
    (∀ event ∈ events, event.IsLegal ∧ event.IsAnswered) ∧ left after + cost ≤ left s
  | .error .interrupted, _, events =>
    ∃ before last, events = before ++ [last] ∧ last.IsLegal ∧ last.IsBrokenOff ∧
      ∀ event ∈ before, event.IsLegal ∧ event.IsAnswered
  | .error .tooDeep, _, events =>
    (∀ event ∈ events, event.IsLegal ∧ event.IsAnswered) ∧ depth ≤ left s
  | .error _, _, _ => False

abbrev Safely {σ α : Type} (left : σ → Nat) (depth cost : Nat) (s : σ) (plain : Draw σ α)
    (watched : Draw (σ × DrawLog) α) : Prop :=
  Logs s plain watched (Ends left depth cost s)

namespace Ends

variable {σ α : Type} {left : σ → Nat} {depth cost : Nat} {s after middle : σ}
  {result : Except DrawError α} {events before : DrawLog}

theorem behind {less : Nat} (ends : Ends left less 0 middle result after events)
    (answered : ∀ event ∈ before, event.IsLegal ∧ event.IsAnswered)
    (spent : left middle + cost ≤ left s) (shallow : depth ≤ less + cost) :
    Ends left depth cost s result after (before ++ events) := by
  have all : (∀ event ∈ events, event.IsLegal ∧ event.IsAnswered) →
      ∀ event ∈ before ++ events, event.IsLegal ∧ event.IsAnswered :=
    fun later => List.forall_mem_append.mpr ⟨answered, later⟩
  cases result with
  | ok a => exact ⟨all ends.1, by have := ends.2; omega⟩
  | error e =>
      cases e with
      | interrupted =>
          obtain ⟨first, last, rfl, legal, broken, others⟩ := ends
          refine ⟨before ++ first, last, (List.append_assoc ..).symm, legal, broken, ?_⟩
          exact List.forall_mem_append.mpr ⟨answered, others⟩
      | tooDeep => exact ⟨all ends.1, by have := ends.2; omega⟩
      | _ => exact ends

theorem of_error {β : Type} {rest : Nat} {e : DrawError}
    (ends : @Ends σ α left depth cost s (.error e) after events) :
    @Ends σ β left depth rest s (.error e) after events := by
  cases e <;> exact ends

end Ends

namespace Safely

variable {σ α β : Type} {left : σ → Nat} {depth cost : Nat} {s : σ}

theorem pure (a : α) : Safely left depth 0 s (Pure.pure a) (Pure.pure a) :=
  Logs.pure ⟨List.forall_mem_nil _, Nat.le_refl _⟩

theorem cheaper {less : Nat} {plain : Draw σ α} {watched : Draw (σ × DrawLog) α}
    (safely : Safely left depth cost s plain watched) (cheap : less ≤ cost) :
    Safely left depth less s plain watched := by
  refine safely.imp fun result after events ends => ?_
  cases result with
  | ok a => exact ⟨ends.1, Nat.le_trans (Nat.add_le_add_left cheap _) ends.2⟩
  | error e => exact ends.of_error

/-- What the first draw has taken is not there for the second one, which may be that much less
deep. -/
theorem bind {less : Nat} {x : Draw σ α} {x' : Draw (σ × DrawLog) α} {f : α → Draw σ β}
    {f' : α → Draw (σ × DrawLog) β} (first : Safely left depth cost s x x')
    (shallow : depth ≤ less + cost)
    (second : ∀ a middle, Safely left less 0 middle (f a) (f' a)) :
    Safely left depth cost s (x >>= f) (x' >>= f') := by
  apply Logs.bind
  refine first.imp fun result middle before ends => ?_
  cases result with
  | error e => exact ends.of_error
  | ok a =>
      exact (second a middle).imp fun result after events later =>
        later.behind ends.1 ends.2 shallow

variable {event : Except DrawError α → DrawEvent} {draw : Draw σ α}

theorem answered (obliges : Obliges left s event draw) (legal : ∀ answer, (event answer).IsLegal)
    (broken : (event (.error .interrupted)).IsBrokenOff) :
    Safely left depth 1 s draw (Source.answered event draw) := by
  refine Logs.answered fun result after drawn => ?_
  rcases obliges legal with ⟨a, behind, same, answered, less⟩ | ⟨behind, same⟩
  · cases drawn.symm.trans same
    exact ⟨List.forall_mem_singleton.mpr ⟨legal _, answered⟩, less⟩
  · cases drawn.symm.trans same
    exact ⟨[], _, rfl, legal _, broken, List.forall_mem_nil _⟩

theorem drawn {event : Except DrawError Int → DrawEvent} {draw : Draw σ Int}
    {vocabulary : Vocabulary} {members : List α} (obliges : Obliges left s event draw)
    (legal : ∀ answer, (event answer).IsLegal)
    (broken : (event (.error .interrupted)).IsBrokenOff)
    (found : ∀ index, (event (.ok index)).IsAnswered →
      ∃ place : Nat, index = place ∧ place < members.length) :
    Safely left depth 1 s (draw >>= Source.member vocabulary members)
      (Source.answered event draw >>= Source.member vocabulary members) := by
  refine Logs.drawn fun result after drawn => ?_
  change Draw.bind draw (Source.member vocabulary members) s = (result, after) at drawn
  unfold Draw.bind at drawn
  rcases obliges legal with ⟨index, behind, same, answered, less⟩ | ⟨behind, same⟩
  · obtain ⟨place, rfl, bound⟩ := found index answered
    have member : Source.member (σ := σ) vocabulary members place = Pure.pure members[place] := by
      unfold Source.member
      rw [if_neg (by omega), Int.toNat_natCast, List.getElem?_eq_getElem bound]
    rw [same] at drawn ⊢
    dsimp only at drawn
    rw [member] at drawn
    cases drawn
    exact ⟨List.forall_mem_singleton.mpr ⟨legal _, answered⟩, less⟩
  · rw [same] at drawn ⊢
    cases drawn
    exact ⟨[], _, rfl, legal _, broken, List.forall_mem_nil _⟩

end Safely

namespace Generator

variable {σ : Type} {source : Source σ} {left : σ → Nat} {config : Config} {name : String}
  {depth : Nat} {s : σ} {place : Place} {weights : Weights}

theorem safely_exprKind (obliging : source.Obliging left) (legal : config.Legal)
    (above : ∀ kind ∈ place, 0 < kind.operands) (at_ : weights.IsAt config place) :
    Safely left depth 1 s (source.exprKind weights) (source.logged.exprKind weights) := by
  refine Safely.drawn (obliging.choice s weights.exprList) (fun _ => ?_) rfl ?_
  · rw [at_.exprList]
    exact ⟨rfl, Config.weightsAt_isNonnegative legal place,
      Config.sum_weightsAt_isPositive legal above⟩
  · rintro index ⟨kind, answer⟩
    exact ⟨kind.index.val, Except.ok.inj answer, kind.index.isLt⟩

theorem safely_binOp (obliging : source.Obliging left) {mask : Mask}
    (legal : mask.vocabulary = .binOp ∧ mask.isEmpty = false) :
    Safely left depth 1 s (source.binOp mask) (source.logged.binOp mask) := by
  refine Safely.drawn (obliging.bit s mask) (fun _ => legal.2) rfl ?_
  rintro index ⟨place, answer, bound, _⟩
  rw [legal.1] at bound
  exact ⟨place, Except.ok.inj answer, bound⟩

theorem safely_unOp (obliging : source.Obliging left) {mask : Mask}
    (legal : mask.vocabulary = .unOp ∧ mask.isEmpty = false) :
    Safely left depth 1 s (source.unOp mask) (source.logged.unOp mask) := by
  refine Safely.drawn (obliging.bit s mask) (fun _ => legal.2) rfl ?_
  rintro index ⟨place, answer, bound, _⟩
  rw [legal.1] at bound
  exact ⟨place, Except.ok.inj answer, bound⟩

theorem safely_ofKind {operand : Draw σ Expr} {logged : Draw (σ × DrawLog) Expr}
    (obliging : source.Obliging left) (legal : config.Legal) (kind : ExprKind)
    (below : 0 < kind.operands → ∀ s, Safely left depth 0 s operand logged) :
    Safely left depth 0 s (ofKind source config name operand kind)
      (ofKind source.logged config name logged kind) := by
  cases kind with
  | integerConstant =>
      have value : Safely left depth 1 s (source.integer config.integerMin config.integerMax)
          (source.logged.integer config.integerMin config.integerMax) :=
        .answered (obliging.integer s _ _) (fun _ => legal.integers) rfl
      exact (value.bind (Nat.le_add_right _ _) fun value _ => .pure _).cheaper (Nat.zero_le 1)
  | doubleConstant =>
      have value : Safely left depth 1 s (source.real config.doubleMin config.doubleMax)
          (source.logged.real config.doubleMin config.doubleMax) :=
        .answered (obliging.real s _ _) (fun _ => legal.doubles) rfl
      exact (value.bind (Nat.le_add_right _ _) fun value _ => .pure _).cheaper (Nat.zero_le 1)
  | variableExpr => exact .pure _
  | binaryExpr =>
      have operand := below Nat.two_pos
      refine Safely.cheaper ?_ (Nat.zero_le 1)
      refine (safely_binOp obliging legal.binOps).bind (Nat.le_add_right _ _) fun op _ => ?_
      refine (operand _).bind (Nat.le_refl _) fun lhs _ => ?_
      exact (operand _).bind (Nat.le_refl _) fun rhs _ => .pure _
  | unaryExpr =>
      have operand := below Nat.one_pos
      refine Safely.cheaper ?_ (Nat.zero_le 1)
      refine (safely_unOp obliging legal.unOps).bind (Nat.le_add_right _ _) fun op _ => ?_
      exact (operand _).bind (Nat.le_refl _) fun operand _ => .pure _

/-- At every place below kinds with operands a run draws safely. A level takes one choice at least,
so a run that is deeper than the draws it has left never gets to its depth. -/
theorem safely_draw (obliging : source.Obliging left) (legal : config.Legal)
    (above : ∀ kind ∈ place, 0 < kind.operands) (at_ : weights.IsAt config place) :
    Safely left depth 0 s (draw source config name depth weights)
      (draw source.logged config name depth weights) := by
  induction depth generalizing place weights s with
  | zero => exact Logs.fail ⟨List.forall_mem_nil _, Nat.zero_le _⟩
  | succ depth ih =>
      rw [draw, draw]
      refine Safely.cheaper ?_ (Nat.zero_le 1)
      refine (safely_exprKind obliging legal above at_).bind (Nat.le_refl _) fun kind middle => ?_
      obtain ⟨dampened, scaled⟩ := weights.scale_ok (.expr kind) (legal.dampens kind)
      have lower : 0 < kind.operands → ∀ s, Safely left depth 0 s
          (draw source config name depth dampened) (draw source.logged config name depth dampened) :=
        fun deep s => ih
          (List.forall_mem_append.mpr ⟨above, List.forall_mem_singleton.mpr deep⟩) (at_.scale scaled)
      rw [scaled]
      change Safely left depth 0 middle
        (ofKind source config name (draw source config name depth dampened) kind >>= _)
        (ofKind source.logged config name (draw source.logged config name depth dampened) kind >>= _)
      refine (safely_ofKind obliging legal kind lower).bind (Nat.le_refl _) fun bare behind => ?_
      have coin : Safely left depth 1 behind (source.coin config.parenthesize)
          (source.logged.coin config.parenthesize) :=
        .answered (obliging.coin behind _) (fun _ => legal.probabilities.1) rfl
      exact (coin.bind (Nat.le_add_right _ _) fun wrapped _ => .pure _).cheaper (Nat.zero_le 1)

theorem safely_generate (obliging : source.Obliging left) (config : ValidConfig) :
    Safely left depth 0 s (generate source config name depth)
      (generate source.logged config name depth) := by
  have legal := ValidConfig.legal config
  obtain ⟨weights, initial, same, _⟩ := Weights.ofConfig_ok legal
  unfold generate
  rw [initial]
  change Safely left depth 0 s (draw source config.val name depth weights)
    (draw source.logged config.val name depth weights)
  exact safely_draw obliging legal (List.forall_mem_nil _) (Weights.isAt_root same)

/-- Over a lawful engine a run from a valid configuration that is granted some draws makes only
legal calls. It ends with a tree, or it runs out of depth, which takes as many draws, or it runs out
of draws; and all its calls are answered, but for the one that it has no draw for. -/
theorem generate_safe (engine : Engine σ) (lawful : engine.Lawful) (config : ValidConfig)
    (name : String) (depth draws : Nat) (s : σ) :
    ∃ result after events,
      generate engine.source.limited config name depth (s, draws) = (result, after) ∧
      generate engine.source.limited.logged config name depth ((s, draws), []) =
        (result, after, events) ∧
      (∀ event ∈ events, event.IsLegal) ∧
      (((∃ tree, result = .ok tree) ∧ ∀ event ∈ events, event.IsAnswered) ∨
        (result = .error .tooDeep ∧ depth ≤ draws ∧ ∀ event ∈ events, event.IsAnswered) ∨
        (result = .error .interrupted ∧ ∃ answered last, events = answered ++ [last] ∧
          last.IsBrokenOff ∧ ∀ event ∈ answered, event.IsAnswered)) := by
  have safely : Safely Prod.snd depth 0 (s, draws) (generate engine.source.limited config name depth)
      (generate engine.source.limited.logged config name depth) := safely_generate lawful.limited config
  obtain ⟨events, same, ends⟩ := safely []
  cases run : generate engine.source.limited config name depth (s, draws) with | mk result after => ?_
  rw [run] at same ends
  refine ⟨result, after, events, rfl, same, ?_⟩
  cases result with
  | ok tree =>
      refine ⟨fun event member => (ends.1 event member).1, .inl ⟨⟨tree, rfl⟩, ?_⟩⟩
      exact fun event member => (ends.1 event member).2
  | error e =>
      cases e with
      | interrupted =>
          obtain ⟨answered, last, rfl, legal, broken, others⟩ := ends
          refine ⟨?_, .inr (.inr ⟨rfl, answered, last, rfl, broken, ?_⟩)⟩
          · exact List.forall_mem_append.mpr
              ⟨fun event member => (others event member).1, List.forall_mem_singleton.mpr legal⟩
          · exact fun event member => (others event member).2
      | tooDeep =>
          refine ⟨fun event member => (ends.1 event member).1, .inr (.inl ⟨rfl, ends.2, ?_⟩)⟩
          exact fun event member => (ends.1 event member).2
      | _ => exact ends.elim

/-- A run of the twister with draws enough for it. -/
theorem generate_safe_twister :
    let config : ValidConfig := ⟨.default, Config.default_valid⟩
    Twister.engine.Lawful ∧ ∃ result after events,
      generate Twister.engine.source.limited.logged config "x" depthLimit ((.ofSeed 7, 5), []) =
        (result, after, events) ∧
      (∀ event ∈ events, event.IsLegal) ∧ result ≠ .error .tooDeep := by
  intro config
  refine ⟨Twister.engine_lawful, ?_⟩
  obtain ⟨result, after, events, _, logged, legal, ends⟩ :=
    generate_safe Twister.engine Twister.engine_lawful config "x" depthLimit 5 (.ofSeed 7)
  refine ⟨result, after, events, logged, legal, ?_⟩
  rcases ends with ⟨⟨tree, rfl⟩, _⟩ | ⟨_, enough, _⟩ | ⟨rfl, _⟩
  · exact nofun
  · exact absurd enough (by decide)
  · exact nofun

end Generator
end CExpr
