import CExpr.Draw.Basic

/-!
Draws side by side. Two draws are coupled if from related states both fail with the same error or
both return related results, and the states that they leave are related again. A source whose
primitive draws are coupled with themselves, where coins may fall differently, cannot tell related
states apart except by its coins.
-/
namespace CExpr

inductive Alike {ε α β : Type} (post : α → β → Prop) : Except ε α → Except ε β → Prop
  | error (e : ε) : Alike post (.error e) (.error e)
  | ok {a : α} {b : β} : post a b → Alike post (.ok a) (.ok b)

def Coupled {σ τ α β : Type} (rel : σ → τ → Prop) (post : α → β → Prop) (x : Draw σ α)
    (y : Draw τ β) : Prop :=
  ∀ s t, rel s t → Alike post (x s).1 (y t).1 ∧ rel (x s).2 (y t).2

namespace Coupled

variable {σ τ α β γ δ : Type} {rel : σ → τ → Prop} {post : α → β → Prop} {later : γ → δ → Prop}

theorem pure {a : α} {b : β} (related : post a b) :
    Coupled rel post (Pure.pure a) (Pure.pure b) :=
  fun _ _ start => ⟨.ok related, start⟩

theorem fail (e : DrawError) : Coupled rel post (Draw.fail e) (Draw.fail e) :=
  fun _ _ start => ⟨.error e, start⟩

theorem ofExcept (x : Except DrawError α) :
    Coupled rel Eq (Draw.ofExcept x) (Draw.ofExcept x) := by
  cases x with
  | ok a => exact Coupled.pure rfl
  | error e => exact Coupled.fail e

/-- What follows two coupled draws has to be coupled for related results only. -/
theorem bind {x : Draw σ α} {y : Draw τ β} {f : α → Draw σ γ} {g : β → Draw τ δ}
    (first : Coupled rel post x y) (second : ∀ a b, post a b → Coupled rel later (f a) (g b)) :
    Coupled rel later (x >>= f) (y >>= g) := by
  intro s t start
  change Alike later (Draw.bind x f s).1 (Draw.bind y g t).1 ∧
    rel (Draw.bind x f s).2 (Draw.bind y g t).2
  unfold Draw.bind
  have ends := first s t start
  generalize x s = left at ends
  generalize y t = right at ends
  obtain ⟨result, middle⟩ := left
  obtain ⟨twin, between⟩ := right
  obtain ⟨alike, related⟩ := ends
  cases alike with
  | error e => exact ⟨.error e, related⟩
  | ok holds => exact second _ _ holds middle between related

theorem member (vocabulary : Vocabulary) (members : List α) (index : Int) :
    Coupled rel Eq (Source.member vocabulary members index)
      (Source.member vocabulary members index) := by
  unfold Source.member
  split
  · exact Coupled.pure rfl
  · exact Coupled.fail _

theorem drawn {draw : Draw σ Int} {other : Draw τ Int} (vocabulary : Vocabulary)
    (members : List α) (coupled : Coupled rel Eq draw other) :
    Coupled rel Eq (draw >>= Source.member vocabulary members)
      (other >>= Source.member vocabulary members) := by
  apply coupled.bind
  rintro index _ rfl
  exact member vocabulary members index

end Coupled

namespace Source

variable {σ : Type} {source : Source σ} {rel : σ → σ → Prop}

/-- From related states all draws but coins end with the same result. -/
structure Overlooks (source : Source σ) (rel : σ → σ → Prop) : Prop where
  choice (weights : List Double) : Coupled rel Eq (source.choice weights) (source.choice weights)
  bit (mask : Mask) : Coupled rel Eq (source.bit mask) (source.bit mask)
  integer (lo hi : Int) : Coupled rel Eq (source.integer lo hi) (source.integer lo hi)
  real (lo hi : Double) : Coupled rel Eq (source.real lo hi) (source.real lo hi)
  coin (probability : Double) :
    Coupled rel (fun _ _ => True) (source.coin probability) (source.coin probability)

namespace Overlooks

theorem exprKind (overlooks : source.Overlooks rel) (weights : Weights) :
    Coupled rel Eq (source.exprKind weights) (source.exprKind weights) :=
  .drawn _ _ (overlooks.choice weights.exprList)

theorem binOp (overlooks : source.Overlooks rel) (mask : Mask) :
    Coupled rel Eq (source.binOp mask) (source.binOp mask) :=
  .drawn _ _ (overlooks.bit mask)

theorem unOp (overlooks : source.Overlooks rel) (mask : Mask) :
    Coupled rel Eq (source.unOp mask) (source.unOp mask) :=
  .drawn _ _ (overlooks.bit mask)

end Overlooks
end Source
end CExpr
