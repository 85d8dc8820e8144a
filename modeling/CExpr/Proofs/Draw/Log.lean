import CExpr.Draw.Basic

/-!
Logged draws. A logged source answers like the source it watches and writes down every call together
with its answer, also with a failure. What a draw adds to the log is judged together with its result
and the state that it leaves; a failure keeps all that was written before it.
-/
namespace CExpr

inductive DrawEvent
  | choice (weights : List Double) (answer : Except DrawError Int)
  | bit (mask : Mask) (answer : Except DrawError Int)
  | integer (lo hi : Int) (answer : Except DrawError Int)
  | real (lo hi : Double) (answer : Except DrawError Double)
  | coin (probability : Double) (answer : Except DrawError Bool)

abbrev DrawLog := List DrawEvent

namespace Source

variable {σ α : Type}

def answered (event : Except DrawError α → DrawEvent) (draw : Draw σ α) : Draw (σ × DrawLog) α :=
  fun s =>
    let (answer, after) := draw s.1
    (answer, after, s.2 ++ [event answer])

def logged (source : Source σ) : Source (σ × DrawLog) where
  choice weights := answered (.choice weights) (source.choice weights)
  bit mask := answered (.bit mask) (source.bit mask)
  integer lo hi := answered (.integer lo hi) (source.integer lo hi)
  real lo hi := answered (.real lo hi) (source.real lo hi)
  coin probability := answered (.coin probability) (source.coin probability)

end Source

/-- From a state a watched draw does what the plain one does and only adds to the log; the result,
the state after it and what was added meet a condition. -/
def Logs {σ α : Type} (s : σ) (plain : Draw σ α) (watched : Draw (σ × DrawLog) α)
    (post : Except DrawError α → σ → DrawLog → Prop) : Prop :=
  ∀ log, ∃ events, watched (s, log) = ((plain s).1, (plain s).2, log ++ events) ∧
    post (plain s).1 (plain s).2 events

namespace Logs

variable {σ α β : Type} {s : σ}

theorem imp {plain : Draw σ α} {watched : Draw (σ × DrawLog) α}
    {strong weak : Except DrawError α → σ → DrawLog → Prop} (logs : Logs s plain watched strong)
    (weakens : ∀ result after events, strong result after events → weak result after events) :
    Logs s plain watched weak := by
  intro log
  obtain ⟨events, same, holds⟩ := logs log
  exact ⟨events, same, weakens _ _ _ holds⟩

theorem pure {a : α} {post : Except DrawError α → σ → DrawLog → Prop} (holds : post (.ok a) s []) :
    Logs s (Pure.pure a) (Pure.pure a) post := by
  intro log
  exact ⟨[], by rw [List.append_nil]; rfl, holds⟩

theorem fail {e : DrawError} {post : Except DrawError α → σ → DrawLog → Prop}
    (holds : post (.error e) s []) : Logs s (Draw.fail e) (Draw.fail e) post := by
  intro log
  exact ⟨[], by rw [List.append_nil]; rfl, holds⟩

/-- What the second draw adds comes behind what the first one has added, and there is no second draw
after a failure. -/
theorem bind {x : Draw σ α} {x' : Draw (σ × DrawLog) α} {f : α → Draw σ β}
    {f' : α → Draw (σ × DrawLog) β} {post : Except DrawError β → σ → DrawLog → Prop}
    (first : Logs s x x' fun result middle events =>
      match result with
      | .ok a => Logs middle (f a) (f' a) fun result after more => post result after (events ++ more)
      | .error e => post (.error e) middle events) :
    Logs s (x >>= f) (x' >>= f') post := by
  intro log
  obtain ⟨events, same, holds⟩ := first log
  change ∃ events, Draw.bind x' f' (s, log) =
      ((Draw.bind x f s).1, (Draw.bind x f s).2, log ++ events) ∧
    post (Draw.bind x f s).1 (Draw.bind x f s).2 events
  unfold Draw.bind
  rw [same]
  cases drawn : x s with
  | mk result middle =>
      rw [drawn] at holds
      cases result with
      | error e => exact ⟨events, rfl, holds⟩
      | ok a =>
          obtain ⟨more, sameRest, holdsRest⟩ := holds (log ++ events)
          exact ⟨events ++ more, by rw [← List.append_assoc]; exact sameRest, holdsRest⟩

theorem answered {event : Except DrawError α → DrawEvent} {draw : Draw σ α}
    {post : Except DrawError α → σ → DrawLog → Prop}
    (holds : ∀ result after, draw s = (result, after) → post result after [event result]) :
    Logs s draw (Source.answered event draw) post := by
  intro log
  exact ⟨[event (draw s).1], rfl, holds _ _ rfl⟩

theorem ofExcept {x : Except DrawError α} {post : Except DrawError α → σ → DrawLog → Prop}
    (holds : post x s []) : Logs s (Draw.ofExcept x) (Draw.ofExcept x) post := by
  cases x with
  | ok a => exact Logs.pure holds
  | error e => exact Logs.fail holds

theorem member {vocabulary : Vocabulary} {members : List α} {index : Int}
    {post : Except DrawError α → σ → DrawLog → Prop}
    (holds : ∀ result, Source.member vocabulary members index s = (result, s) → post result s []) :
    Logs s (Source.member vocabulary members index) (Source.member vocabulary members index) post := by
  unfold Source.member at holds ⊢
  split
  · rename_i found look
    exact Logs.pure (holds _ (by rw [look]; rfl))
  · rename_i look
    exact Logs.fail (holds _ (by rw [look]; rfl))

theorem drawn {vocabulary : Vocabulary} {members : List α} {draw : Draw σ Int}
    {event : Except DrawError Int → DrawEvent} {post : Except DrawError α → σ → DrawLog → Prop}
    (holds : ∀ result after, (draw >>= Source.member vocabulary members) s = (result, after) →
      post result after [event (draw s).1]) :
    Logs s (draw >>= Source.member vocabulary members)
      (Source.answered event draw >>= Source.member vocabulary members) post := by
  apply Logs.bind
  refine Logs.answered fun answer middle drawn => ?_
  have whole : (draw >>= Source.member vocabulary members) s =
      Draw.bind draw (Source.member vocabulary members) s := rfl
  rw [whole, Draw.bind, drawn] at holds
  cases answer with
  | error e => exact holds _ _ rfl
  | ok index => exact Logs.member fun result same => holds result middle same

end Logs
end CExpr
