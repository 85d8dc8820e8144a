import CExpr.Draw.Basic
import CExpr.Proofs.Outcome

/-!
When a draw succeeds. A sequence of draws succeeds if every one of them does, each in the state that
the one before it left; a member is drawn exactly when its index is.
-/
namespace CExpr

variable {σ α β : Type}

namespace Draw

theorem bind_eq_ok {x : Draw σ α} {f : α → Draw σ β} {s after : σ} {b : β} :
    (x >>= f) s = (.ok b, after) ↔
      ∃ a middle, x s = (.ok a, middle) ∧ f a middle = (.ok b, after) := by
  change Draw.bind x f s = _ ↔ _
  unfold Draw.bind
  constructor
  · intro returned
    split at returned
    · rename_i a middle first
      exact ⟨a, middle, first, returned⟩
    · cases returned
  · rintro ⟨a, middle, first, second⟩
    rw [first]
    exact second

@[simp] theorem pure_eq_ok {a b : α} {s after : σ} :
    (Pure.pure a : Draw σ α) s = (.ok b, after) ↔ a = b ∧ s = after := by
  change (Except.ok a, s) = (.ok b, after) ↔ _
  simp

@[simp] theorem ofExcept_eq_ok {x : Except DrawError α} {s after : σ} {a : α} :
    ofExcept x s = (.ok a, after) ↔ x = .ok a ∧ s = after := by
  cases x with
  | ok found => simp [ofExcept, Draw.pure]
  | error e => simp [ofExcept, fail]

end Draw

namespace BinOp

def index (op : BinOp) : Nat := all.idxOf op

theorem all_getElem?_index (op : BinOp) : all[op.index]? = some op := by cases op <;> rfl

end BinOp

namespace UnOp

def index (op : UnOp) : Nat := all.idxOf op

theorem all_getElem?_index (op : UnOp) : all[op.index]? = some op := by cases op <;> rfl

end UnOp

namespace Source

theorem member_eq_ok {vocabulary : Vocabulary} {members : List α} (distinct : members.Nodup)
    {a : α} {place : Nat} (stands : members[place]? = some a) {index : Int} {s after : σ} :
    member vocabulary members index s = (.ok a, after) ↔ index = place ∧ s = after := by
  unfold member
  constructor
  · intro returned
    cases look : if index < 0 then none else members[index.toNat]? with
    | none =>
        rw [look] at returned
        cases returned
    | some found =>
        rw [look] at returned
        obtain ⟨rfl, rfl⟩ := Draw.pure_eq_ok.mp returned
        by_cases negative : index < 0
        · rw [if_pos negative] at look
          cases look
        · rw [if_neg negative] at look
          have bound := (List.getElem?_eq_some_iff.mp look).1
          have same := (List.getElem?_inj bound distinct).mp (look.trans stands.symm)
          exact ⟨by omega, rfl⟩
  · rintro ⟨rfl, rfl⟩
    rw [if_neg (by omega), Int.toNat_natCast, stands]
    rfl

theorem drawn_eq_ok {vocabulary : Vocabulary} {members : List α} (distinct : members.Nodup)
    {a : α} {place : Nat} (stands : members[place]? = some a) {x : Draw σ Int} {s after : σ} :
    (x >>= member vocabulary members) s = (.ok a, after) ↔ x s = (.ok (place : Int), after) := by
  constructor
  · intro returned
    obtain ⟨index, middle, first, second⟩ := Draw.bind_eq_ok.mp returned
    obtain ⟨rfl, rfl⟩ := (member_eq_ok distinct stands).mp second
    exact first
  · intro returned
    exact Draw.bind_eq_ok.mpr ⟨_, _, returned, (member_eq_ok distinct stands).mpr ⟨rfl, rfl⟩⟩

variable {source : Source σ} {s after : σ}

theorem exprKind_eq_ok {weights : Weights} {kind : ExprKind} :
    source.exprKind weights s = (.ok kind, after) ↔
      source.choice weights.exprList s = (.ok (kind.index.val : Int), after) :=
  drawn_eq_ok (by decide) kind.all_getElem?_index

theorem binOp_eq_ok {mask : Mask} {op : BinOp} :
    source.binOp mask s = (.ok op, after) ↔ source.bit mask s = (.ok (op.index : Int), after) :=
  drawn_eq_ok (by decide) op.all_getElem?_index

theorem unOp_eq_ok {mask : Mask} {op : UnOp} :
    source.unOp mask s = (.ok op, after) ↔ source.bit mask s = (.ok (op.index : Int), after) :=
  drawn_eq_ok (by decide) op.all_getElem?_index

end Source
end CExpr
