import CExpr.Circuit.Bits

/-!
What is built means what its name says, in whatever store it is built: a drawing has the truth value
of the choice that it stands for, and so have the signals that the gates give.
-/
namespace CExpr

def Signal.Yields {α : Type} (build : Signal.Build α) (post : α → Prop) : Prop :=
  ∀ store, post (build.run store).1

namespace Signal

variable {inputs : Nat → Bool}

namespace Yields

variable {α β : Type}

theorem pure {a : α} {post : α → Prop} (holds : post a) : Yields (Pure.pure a) post :=
  fun _ => holds

theorem bind {build : Build α} {next : α → Build β} {middle : α → Prop} {post : β → Prop}
    (first : Yields build middle) (second : ∀ a, middle a → Yields (next a) post) :
    Yields (build >>= next) post :=
  fun store => second _ (first store) _

theorem imp {build : Build α} {strong weak : α → Prop} (yields : Yields build strong)
    (weakens : ∀ a, strong a → weak a) : Yields build weak :=
  fun store => weakens _ (yields store)

end Yields

namespace Drawing

def eval (inputs : Nat → Bool) : Drawing → Bool
  | known signal => signal.eval inputs
  | drawn negated condition yes no =>
    negated ^^ if condition.eval inputs then yes.eval inputs else no.eval inputs

theorem eval_negate (d : Drawing) : d.negate.eval inputs = !d.eval inputs := by
  cases d with
  | known signal => exact Signal.eval_negate inputs signal
  | drawn negated condition yes no => cases negated <;> simp [negate, eval]

theorem eval_byEither (condition yes no : Signal) : (byEither condition yes no).eval inputs =
    if condition.eval inputs then yes.eval inputs else no.eval inputs := by
  unfold byEither
  split
  · rename_i operand
    by_cases chosen : operand.eval inputs = true <;> simp [eval, Signal.eval, chosen]
  · exact Bool.false_xor _

theorem eval_both (a b : Signal) :
    (both a b).eval inputs = (a.eval inputs && b.eval inputs) := by
  unfold both
  split <;> rw [eval_byEither] <;>
    cases a.eval inputs <;> cases b.eval inputs <;> rfl

theorem eval_differ (a b : Signal) :
    (differ a b).eval inputs = (a.eval inputs ^^ b.eval inputs) := by
  unfold differ
  split <;> simp only [eval, Signal.eval_negate, Bool.false_xor] <;>
    cases a.eval inputs <;> cases b.eval inputs <;> rfl

theorem eval_ofDifferent {condition yes no : Signal} (different : yes ≠ no) :
    (ofDifferent condition yes no).eval inputs =
      if condition.eval inputs then yes.eval inputs else no.eval inputs := by
  fun_cases ofDifferent condition yes no with
  | case1 value | case2 value =>
      cases value <;> first | exact absurd rfl different | skip
      by_cases chosen : condition.eval inputs = true <;>
        simp [eval, Signal.eval, Signal.eval_negate, chosen]
  | case3 | case4 | case5 | case6 =>
      by_cases chosen : condition.eval inputs = true <;>
        simp [eval_negate, eval_both, Signal.eval, Signal.eval_negate, chosen]
  | case7 | case9 =>
      by_cases chosen : condition.eval inputs = true <;>
        simp [eval_negate, eval_differ, Signal.eval, Signal.eval_negate, chosen]
  | case8 | case10 =>
      by_cases chosen : condition.eval inputs = true <;>
        simp [eval, Signal.eval, Signal.eval_negate, chosen]

theorem eval_settled {condition : Signal} {truth : Bool} (known : condition.eval inputs = truth)
    (signal : Signal) :
    (if signal = condition then fixed truth
      else if signal = condition.negate then fixed !truth else signal).eval inputs =
      signal.eval inputs := by
  split
  · rename_i same
    rw [same, known]
    rfl
  · split
    · rename_i same
      rw [same, Signal.eval_negate, known]
      rfl
    · rfl

theorem eval_ofPlain (condition yes no : Signal) : (ofPlain condition yes no).eval inputs =
    if condition.eval inputs then yes.eval inputs else no.eval inputs := by
  have whole : ∀ yes' no' : Signal, (if yes' = no' then known yes' else
      ofDifferent condition yes' no').eval inputs =
        if condition.eval inputs then yes'.eval inputs else no'.eval inputs := by
    intro yes' no'
    split
    · rename_i same
      rw [same, ite_self]
      rfl
    · rename_i different
      exact eval_ofDifferent different
  refine (whole _ _).trans ?_
  cases chosen : condition.eval inputs with
  | true => exact eval_settled chosen yes
  | false => exact eval_settled chosen no

theorem eval_ofChoice (condition yes no : Signal) : (ofChoice condition yes no).eval inputs =
    if condition.eval inputs then yes.eval inputs else no.eval inputs := by
  unfold ofChoice
  split
  · rename_i value
    cases value <;> rfl
  · rename_i operand
    rw [eval_ofPlain]
    by_cases chosen : operand.eval inputs = true <;> simp [Signal.eval, chosen]
  · exact eval_ofPlain _ _ _

end Drawing

theorem yields_select (inputs : Nat → Bool) (condition yes no : Signal) :
    Yields (select condition yes no) fun signal => signal.eval inputs =
      if condition.eval inputs then yes.eval inputs else no.eval inputs := by
  rw [← Drawing.eval_ofChoice]
  unfold select
  split
  · rename_i signal drawing
    rw [drawing]
    exact .pure rfl
  · rename_i negated condition yes no drawing
    rw [drawing]
    refine Yields.bind (fun store => trivial) fun chosen (_ : True) => .pure ?_
    rw [Drawing.eval, ← chosen.eval_eq]
    cases negated
    · exact (Bool.false_xor _).symm
    · rw [if_pos rfl, Signal.eval_negate, Bool.true_xor]

theorem yields_both (inputs : Nat → Bool) (a b : Signal) : Yields (both a b) fun signal =>
    signal.eval inputs = (a.eval inputs && b.eval inputs) := by
  refine (yields_select inputs a b (fixed false)).imp fun signal same => same.trans ?_
  cases a.eval inputs <;> rfl

theorem yields_either (inputs : Nat → Bool) (a b : Signal) : Yields (either a b) fun signal =>
    signal.eval inputs = (a.eval inputs || b.eval inputs) := by
  refine (yields_select inputs a (fixed true) b).imp fun signal same => same.trans ?_
  cases a.eval inputs <;> rfl

theorem yields_differ (inputs : Nat → Bool) (a b : Signal) : Yields (differ a b) fun signal =>
    signal.eval inputs = (a.eval inputs ^^ b.eval inputs) := by
  refine (yields_select inputs a b.negate b).imp fun signal same => same.trans ?_
  rw [eval_negate]
  cases a.eval inputs <;> cases b.eval inputs <;> rfl

end Signal
end CExpr
