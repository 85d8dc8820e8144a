import CExpr.Draw.Sources
import CExpr.Proofs.Draw.Coupling

/-!
A draw that keeps up with another one. From related states it comes to the same error or to a
related result, and leaves related states, unless it breaks off with one of the errors that are set
apart. Every source keeps up with itself, and with a grant it does so as far as the grant goes.
-/
namespace CExpr

def KeepsUp {σ τ α β : Type} (apart : DrawError → Prop) (rel : σ → τ → Prop) (post : α → β → Prop)
    (x : Draw σ α) (y : Draw τ β) : Prop :=
  ∀ s t, rel s t → (∃ e, apart e ∧ (x s).1 = .error e) ∨
    (Alike post (x s).1 (y t).1 ∧ rel (x s).2 (y t).2)

theorem Alike.refl {ε α : Type} (x : Except ε α) : Alike Eq x x := by
  cases x with
  | error e => exact .error e
  | ok a => exact .ok rfl

variable {σ τ α β γ δ : Type} {apart : DrawError → Prop} {rel : σ → τ → Prop}
  {post : α → β → Prop} {later : γ → δ → Prop}

theorem Coupled.keepsUp {x : Draw σ α} {y : Draw τ β} (coupled : Coupled rel post x y) :
    KeepsUp apart rel post x y :=
  fun s t start => .inr (coupled s t start)

namespace KeepsUp

theorem pure {a : α} {b : β} (related : post a b) :
    KeepsUp apart rel post (Pure.pure a) (Pure.pure b) :=
  (Coupled.pure related).keepsUp

theorem bind {x : Draw σ α} {y : Draw τ β} {f : α → Draw σ γ} {g : β → Draw τ δ}
    (first : KeepsUp apart rel post x y)
    (second : ∀ a b, post a b → KeepsUp apart rel later (f a) (g b)) :
    KeepsUp apart rel later (x >>= f) (y >>= g) := by
  intro s t start
  change (∃ e, apart e ∧ (Draw.bind x f s).1 = .error e) ∨
    (Alike later (Draw.bind x f s).1 (Draw.bind y g t).1 ∧
      rel (Draw.bind x f s).2 (Draw.bind y g t).2)
  unfold Draw.bind
  have ends := first s t start
  generalize x s = left at ends
  generalize y t = right at ends
  obtain ⟨result, middle⟩ := left
  obtain ⟨twin, between⟩ := right
  rcases ends with ⟨e, broken, same⟩ | ⟨alike, related⟩
  · cases same
    exact .inl ⟨e, broken, rfl⟩
  · cases alike with
    | error e => exact .inr ⟨.error e, related⟩
    | ok holds => exact second _ _ holds middle between related

theorem drawn {draw : Draw σ Int} {other : Draw τ Int} (vocabulary : Vocabulary)
    (members : List α) (keepsUp : KeepsUp apart rel Eq draw other) :
    KeepsUp apart rel Eq (draw >>= Source.member vocabulary members)
      (other >>= Source.member vocabulary members) := by
  apply keepsUp.bind
  rintro index _ rfl
  exact (Coupled.member vocabulary members index).keepsUp

end KeepsUp

namespace Source

structure GoesAfter (apart : DrawError → Prop) (rel : σ → τ → Prop) (source : Source σ)
    (other : Source τ) : Prop where
  choice (weights : List Double) :
    KeepsUp apart rel Eq (source.choice weights) (other.choice weights)
  bit (mask : Mask) : KeepsUp apart rel Eq (source.bit mask) (other.bit mask)
  integer (lo hi : Int) : KeepsUp apart rel Eq (source.integer lo hi) (other.integer lo hi)
  real (lo hi : Double) : KeepsUp apart rel Eq (source.real lo hi) (other.real lo hi)
  coin (probability : Double) :
    KeepsUp apart rel Eq (source.coin probability) (other.coin probability)

theorem goesAfter_self (source : Source σ) : GoesAfter (fun _ => False) Eq source source := by
  have self {α : Type} (draw : Draw σ α) : KeepsUp (fun _ => False) Eq Eq draw draw := by
    rintro s _ rfl
    exact .inr ⟨.refl _, rfl⟩
  exact ⟨fun _ => self _, fun _ => self _, fun _ _ => self _, fun _ _ => self _, fun _ => self _⟩

theorem granted_keepsUp (draw : Draw σ α) :
    KeepsUp (· = .interrupted) (fun s t => s.1 = t) Eq (granted draw) draw := by
  rintro ⟨state, left⟩ _ rfl
  cases left with
  | zero => exact .inl ⟨_, rfl, rfl⟩
  | succ left => exact .inr ⟨.refl _, rfl⟩

theorem limited_goesAfter (source : Source σ) :
    GoesAfter (· = .interrupted) (fun s t => s.1 = t) source.limited source where
  choice _ := granted_keepsUp _
  bit _ := granted_keepsUp _
  integer _ _ := granted_keepsUp _
  real _ _ := granted_keepsUp _
  coin _ := granted_keepsUp _

end Source
end CExpr
