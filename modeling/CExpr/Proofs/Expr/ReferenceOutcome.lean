import CExpr.Expr.Basic
import CExpr.Proofs.Expr.Equivalence
import Mathlib.Data.List.Sort

/-!
Every way in which asking for a reference value can end. A double anywhere ends it with the leftmost
one, whatever is bound; otherwise every name that occurs has to be bound, also one that the value
does not depend on, and all that are not are reported together; otherwise there is a value. Nothing
else can happen.
-/
namespace CExpr

namespace Expr

def doubles : Expr → List Double
  | integer _ | var _ => []
  | double value => [value]
  | unary _ operand => operand.doubles
  | binary _ lhs rhs => lhs.doubles ++ rhs.doubles
  | parens inner => inner.doubles

theorem hasDouble_eq_false_iff {e : Expr} : e.hasDouble = false ↔ e.doubles = [] := by
  induction e with
  | integer value | var name => exact ⟨fun _ => rfl, fun _ => rfl⟩
  | double value => exact ⟨nofun, nofun⟩
  | unary op operand ih | parens inner ih => exact ih
  | binary op lhs rhs left right =>
      rw [hasDouble, doubles, Bool.or_eq_false_iff, List.append_eq_nil_iff, left, right]

/-- The first double that is met ends the reading, whatever names were met before. -/
theorem lower_of_doubles {e : Expr} {first : Double} {rest : List Double}
    (listed : e.doubles = first :: rest) (symbols : SymbolTable) :
    ∃ table, e.lower symbols = (.error ⟨first⟩, table) := by
  induction e generalizing rest symbols with
  | integer value | var name => cases listed
  | double value =>
      cases listed
      exact ⟨symbols, rfl⟩
  | unary op operand ih =>
      obtain ⟨table, lowered⟩ := ih listed symbols
      exact ⟨table, by rw [lower, lowered]; rfl⟩
  | parens inner ih => exact ih listed symbols
  | binary op lhs rhs left right =>
      rw [doubles] at listed
      cases inLeft : lhs.doubles with
      | cons head tail =>
          -- The double is in the left operand, and the right one is not read.
          rw [inLeft] at listed
          cases listed
          obtain ⟨table, lowered⟩ := left inLeft symbols
          exact ⟨table, by rw [lower, lowered]⟩
      | nil =>
          rw [inLeft] at listed
          obtain ⟨term, _, lowersLeft⟩ := lower_of_hasDouble (hasDouble_eq_false_iff.mpr inLeft)
          obtain ⟨middle, loweredLeft, _⟩ := lowersLeft symbols
          obtain ⟨table, loweredRight⟩ := right listed middle
          exact ⟨table, by rw [lower, loweredLeft]; simp only [loweredRight]; rfl⟩

theorem nodup_add {symbols : SymbolTable} (distinct : symbols.Nodup) (name : String) :
    (symbols.add name).Nodup := by
  unfold SymbolTable.add
  split
  · exact distinct
  · rename_i unknown
    refine List.nodup_append.mpr ⟨distinct, by simp, ?_⟩
    rintro other member _ last rfl
    rw [List.mem_singleton.mp last] at member
    exact unknown (List.contains_iff_mem.mpr member)

theorem nodup_lower (e : Expr) {symbols : SymbolTable} (distinct : symbols.Nodup) :
    (e.lower symbols).2.Nodup := by
  induction e generalizing symbols with
  | integer value | double value => exact distinct
  | var name => exact nodup_add distinct name
  | unary op operand ih | parens operand ih => exact ih distinct
  | binary op lhs rhs left right =>
      have middle := left distinct
      rw [lower]
      -- After a double on the left the table stays as it is.
      split
      · rename_i lowered
        rwa [lowered] at middle
      · rename_i lowered
        rw [lowered] at middle
        exact right middle

end Expr

namespace Bindings

theorem mem_unbound {bindings : Bindings} {symbols : SymbolTable} {name : String} :
    name ∈ bindings.unbound symbols ↔ name ∈ symbols ∧ bindings.lookup name = none := by
  rw [unbound, List.mem_mergeSort, List.mem_filter, Option.isNone_iff_eq_none]

theorem unbound_ascending (bindings : Bindings) {symbols : SymbolTable} (distinct : symbols.Nodup) :
    (bindings.unbound symbols).Pairwise (· < ·) := by
  have sorted : (bindings.unbound symbols).Pairwise fun a b => decide (a ≤ b) = true := by
    apply List.pairwise_mergeSort
    · intro a b c first second
      exact decide_eq_true (String.le_trans (of_decide_eq_true first) (of_decide_eq_true second))
    · intro a b
      simpa using String.le_total a b
  have once : (bindings.unbound symbols).Nodup :=
    (List.mergeSort_perm _ _).nodup_iff.mpr (distinct.filter _)
  refine (sorted.and once).imp fun {a b} both => ?_
  by_cases less : a < b
  · exact less
  · exact absurd (String.le_antisymm (of_decide_eq_true both.1) (String.not_lt.mp less)) both.2

end Bindings

namespace Expr

theorem reference_of_unbound {e : Expr} {bindings : Bindings} (whole : e.doubles = [])
    (missing : ¬ bindings.Covers e.names) :
    ∃ names, e.reference bindings = .error (.unbound names) ∧ names.Pairwise (· < ·) ∧
      ∀ name, name ∈ names ↔ name ∈ e.names ∧ bindings.lookup name = none := by
  obtain ⟨term, _, lowers⟩ := lower_of_hasDouble (hasDouble_eq_false_iff.mpr whole)
  obtain ⟨table, lowered, met⟩ := lowers []
  have distinct : table.Nodup := by
    have distinct : (e.lower []).2.Nodup := e.nodup_lower List.nodup_nil
    rwa [lowered] at distinct
  have listed : ∀ name,
      name ∈ bindings.unbound table ↔ name ∈ e.names ∧ bindings.lookup name = none := by
    intro name
    rw [Bindings.mem_unbound, met, or_iff_right List.not_mem_nil]
  refine ⟨bindings.unbound table, ?_, bindings.unbound_ascending distinct, listed⟩
  rw [reference, lowered]
  simp only
  split
  · rename_i nothing
    refine absurd (fun name member => Option.isSome_iff_ne_none.mpr fun free => ?_) missing
    have reported := (listed name).mpr ⟨member, free⟩
    rw [nothing] at reported
    cases reported
  · rfl

/-- The outcome for every expression and all bindings. The leftmost double is named as it is printed;
without doubles the unbound names that occur are listed, each once and in ascending order; and
without these there is a value of 64 bits. -/
theorem reference_outcome (e : Expr) (bindings : Bindings) :
    (∀ first rest, e.doubles = first :: rest →
      e.reference bindings = .error (.noWord ⟨first⟩) ∧
        (ReferenceError.noWord ⟨first⟩).message =
          s!"double constant {(double first).text} has no bit-vector semantics") ∧
    (e.doubles = [] → ¬ bindings.Covers e.names →
      ∃ names, e.reference bindings = .error (.unbound names) ∧ names.Pairwise (· < ·) ∧
        ∀ name, name ∈ names ↔ name ∈ e.names ∧ bindings.lookup name = none) ∧
    (e.doubles = [] → bindings.Covers e.names →
      ∃ word, e.reference bindings = .ok word ∧ word.toNat < 2 ^ 64) := by
  refine ⟨fun first rest listed => ⟨?_, rfl⟩, reference_of_unbound, fun whole covers => ?_⟩
  · obtain ⟨table, lowered⟩ := lower_of_doubles listed []
    rw [reference, lowered]
  · have value := reference_eq_value (hasDouble_eq_false_iff.mpr whole) covers
    exact ⟨_, value, BitVec.isLt _⟩

/-- `0 && y * x - y` is zero for all values of its variables, and still both have to be bound; a
double to the right of them comes first all the same. -/
theorem reference_outcome_unused :
    let e := binary .logicalAnd (integer 0)
      (binary .minus (binary .mult (var "y") (var "x")) (var "y"))
    (∀ env, e.value env = 0) ∧ e.reference [] = .error (.unbound ["x", "y"]) ∧
      (binary .plus e (double (.zero false))).reference [] =
        .error (.noWord ⟨.zero false⟩) := by
  intro e
  refine ⟨fun env => rfl, ?_, ?_⟩
  · obtain ⟨names, returned, ascending, listed⟩ := (reference_outcome e []).2.1 rfl (by decide)
    have same : names = ["x", "y"] := by
      refine ascending.eq_of_mem_iff (by decide) fun name => ?_
      have occurring : e.names = ["y", "x", "y"] := rfl
      rw [listed, occurring]
      grind
    rw [returned, same]
  · exact ((reference_outcome _ []).1 _ [] rfl).1

end Expr
end CExpr
