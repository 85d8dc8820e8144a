import CExpr.Proofs.Expr.Substitution
import Mathlib.Data.Int.ModEq

/-!
What asking for a reference value depends on. A variable may be bound or its value written in its
place: the one is looked up when the whole term is there, the other is part of the term, and both come
to the same. Of constants and of bound values only the residue modulo 2^64 counts, and of the bindings
only those of names that occur. This goes for the errors as well as for the values, so nothing is
asked of the trees here.
-/
namespace CExpr

theorem Word.ofInt_eq_of_modEq {a b : Int} (same : a ≡ b [ZMOD 2 ^ 64]) :
    BitVec.ofInt 64 a = BitVec.ofInt 64 b := by
  apply BitVec.eq_of_toNat_eq
  rw [BitVec.toNat_ofInt, BitVec.toNat_ofInt]
  exact congrArg Int.toNat same

/-- Both bind a name, to integers of the same residue, or neither does. -/
def Bindings.AgreeOn (bindings other : Bindings) (name : String) : Prop :=
  Option.Rel (fun a b => a ≡ b [ZMOD 2 ^ 64]) (bindings.lookup name) (other.lookup name)

namespace Bindings.AgreeOn

variable {bindings other : Bindings} {name : String}

theorem of_lookup_eq (same : other.lookup name = bindings.lookup name) :
    bindings.AgreeOn other name := by
  rw [AgreeOn, same]
  cases bindings.lookup name with
  | none => exact .none
  | some value => exact .some (Int.ModEq.refl value)

theorem lookup_eq_none_iff (agree : bindings.AgreeOn other name) :
    bindings.lookup name = none ↔ other.lookup name = none := by
  rw [AgreeOn] at agree
  generalize bindings.lookup name = found, other.lookup name = twin at agree ⊢
  cases agree with
  | none => exact Iff.rfl
  | some same => exact ⟨nofun, nofun⟩

theorem word_eq (agree : bindings.AgreeOn other name) : bindings.word name = other.word name := by
  rw [AgreeOn] at agree
  rw [word, word]
  generalize bindings.lookup name = found, other.lookup name = twin at agree ⊢
  cases agree with
  | none => rfl
  | some same => exact Word.ofInt_eq_of_modEq same

end Bindings.AgreeOn

theorem Bindings.not_covers_iff {bindings : Bindings} {names : List String} :
    ¬ bindings.Covers names ↔ ∃ name, name ∈ names ∧ bindings.lookup name = none := by
  simp only [Covers, not_forall, exists_prop, Option.isSome_iff_ne_none, ne_eq, not_not]

namespace Expr

variable {e f : Expr} {bindings other : Bindings}

/-- The outcome is told by the doubles, by the names without a value, and by the value. -/
theorem reference_congr (doubles : e.doubles = f.doubles)
    (free : ∀ name, name ∈ e.names ∧ bindings.lookup name = none ↔
      name ∈ f.names ∧ other.lookup name = none)
    (value : e.value bindings.word = f.value other.word) :
    e.reference bindings = f.reference other := by
  cases found : e.doubles with
  | cons first rest =>
      obtain ⟨table, lowered⟩ := lower_of_doubles found []
      obtain ⟨twin, loweredTwin⟩ := lower_of_doubles (doubles ▸ found) []
      rw [reference, reference, lowered, loweredTwin]
  | nil =>
      have whole : f.doubles = [] := doubles ▸ found
      have missing : ¬ bindings.Covers e.names ↔ ¬ other.Covers f.names := by
        rw [Bindings.not_covers_iff, Bindings.not_covers_iff]
        exact exists_congr free
      by_cases covers : bindings.Covers e.names
      · have coversTwin : other.Covers f.names := not_not.mp fun lacking => missing.mpr lacking covers
        rw [reference_eq_value (hasDouble_eq_false_iff.mpr found) covers,
          reference_eq_value (hasDouble_eq_false_iff.mpr whole) coversTwin, value]
      · -- Both report what is not bound, in order, and these are the same names.
        obtain ⟨names, failed, ascending, listed⟩ := reference_of_unbound found covers
        obtain ⟨twins, failedTwin, ascendingTwin, listedTwin⟩ :=
          reference_of_unbound whole (missing.mp covers)
        have same : names = twins := by
          refine ascending.eq_of_mem_iff ascendingTwin fun name => ?_
          rw [listed, listedTwin, free]
        rw [failed, failedTwin, same]

def written (bindings : Bindings) (name : String) : Expr :=
  (bindings.lookup name).elim (var name) integer

def inlined (bindings : Bindings) (e : Expr) : Expr := e.substituted (written bindings)

theorem doubles_inlined (bindings : Bindings) (e : Expr) :
    (e.inlined bindings).doubles = e.doubles := by
  refine doubles_substituted fun name _ => ?_
  rw [written]
  cases bindings.lookup name <;> rfl

theorem mem_names_inlined {name : String} :
    name ∈ (e.inlined bindings).names ↔ name ∈ e.names ∧ bindings.lookup name = none := by
  have left (place : String) :
      name ∈ (written bindings place).names ↔ name = place ∧ bindings.lookup place = none := by
    rw [written]
    cases bindings.lookup place with
    | none => exact List.mem_singleton.trans (and_iff_left rfl).symm
    | some value => exact ⟨nofun, nofun⟩
  simp only [inlined, names_substituted, List.mem_flatMap, left, and_left_comm, exists_eq_left']

theorem value_inlined (bindings rest : Bindings) (e : Expr) :
    (e.inlined bindings).value rest.word = e.value (bindings ++ rest : Bindings).word := by
  rw [inlined, value_substituted]
  refine value_congr fun name _ => ?_
  rw [written, Bindings.word, List.lookup_append]
  cases bindings.lookup name <;> rfl

/-- Some of the bindings may be written into the tree and the others looked up. -/
theorem reference_inlined (bindings rest : Bindings) (e : Expr) :
    (e.inlined bindings).reference rest = e.reference (bindings ++ rest) := by
  refine reference_congr (e.doubles_inlined bindings) (fun name => ?_) (e.value_inlined bindings rest)
  rw [mem_names_inlined, List.lookup_append, Option.or_eq_none_iff, and_assoc]

/-- The same tree, except that a constant may be another integer of the same residue. -/
inductive Congruent : Expr → Expr → Prop
  | integer {a b : Int} (same : a ≡ b [ZMOD 2 ^ 64]) : Congruent (.integer a) (.integer b)
  | double (value : Double) : Congruent (.double value) (.double value)
  | var (name : String) : Congruent (.var name) (.var name)
  | unary (op : UnOp) {a b : Expr} (operand : Congruent a b) :
    Congruent (.unary op a) (.unary op b)
  | binary (op : BinOp) {a b c d : Expr} (lhs : Congruent a b) (rhs : Congruent c d) :
    Congruent (.binary op a c) (.binary op b d)
  | parens {a b : Expr} (inner : Congruent a b) : Congruent (.parens a) (.parens b)

namespace Congruent

protected theorem refl (e : Expr) : e.Congruent e := by
  induction e with
  | integer value => exact .integer (Int.ModEq.refl value)
  | double value => exact .double value
  | var name => exact .var name
  | unary op operand ih => exact .unary op ih
  | binary op lhs rhs left right => exact .binary op left right
  | parens inner ih => exact .parens ih

theorem doubles_eq (congruent : e.Congruent f) : e.doubles = f.doubles := by
  induction congruent with
  | integer same | double value | var name => rfl
  | unary op operand ih | parens operand ih => exact ih
  | binary op lhs rhs left right => rw [doubles, doubles, left, right]

theorem names_eq (congruent : e.Congruent f) : e.names = f.names := by
  induction congruent with
  | integer same | double value | var name => rfl
  | unary op operand ih | parens operand ih => exact ih
  | binary op lhs rhs left right => rw [names, names, left, right]

/-- Constants are reduced where they stand, so no operator sees which one it was. -/
theorem value_eq (congruent : e.Congruent f) (env : String → Word) : e.value env = f.value env := by
  induction congruent with
  | integer same => exact Word.ofInt_eq_of_modEq same
  | double value | var name => rfl
  | unary op operand ih => rw [value, value, ih]
  | binary op lhs rhs left right => rw [value, value, left, right]
  | parens inner ih => exact ih

theorem reference_eq (congruent : e.Congruent f)
    (agree : ∀ name ∈ e.names, bindings.AgreeOn other name) :
    f.reference other = e.reference bindings := by
  have words : e.value bindings.word = f.value other.word := by
    rw [value_congr fun name occurs => (agree name occurs).word_eq, congruent.value_eq]
  refine (reference_congr congruent.doubles_eq (fun name => ?_) words).symm
  rw [← congruent.names_eq]
  exact and_congr_right fun occurs => (agree name occurs).lookup_eq_none_iff

end Congruent

/-- Without doubles and with all of its variables bound a tree has a value. Whatever asking for it
comes to, it comes to the same with the bound values written into the tree and nothing bound, after
constants and bound values have been replaced by others of their residues, and under any bindings
that bind the names that occur to the same. -/
theorem reference_inlined_congruent (e : Expr) (bindings : Bindings) :
    (e.doubles = [] → bindings.Covers e.names → ∃ word, e.reference bindings = .ok word) ∧
      (e.inlined bindings).reference [] = e.reference bindings ∧
      (∀ f other, e.Congruent f → (∀ name ∈ e.names, bindings.AgreeOn other name) →
        f.reference other = e.reference bindings) ∧
      ∀ other : Bindings, (∀ name ∈ e.names, other.lookup name = bindings.lookup name) →
        e.reference other = e.reference bindings := by
  refine ⟨fun whole covers => ?_, ?_, fun f other congruent agree => congruent.reference_eq agree,
    fun other same => ?_⟩
  · exact ⟨_, reference_eq_value (hasDouble_eq_false_iff.mpr whole) covers⟩
  · rw [reference_inlined, List.append_nil]
  · exact (Congruent.refl e).reference_eq fun name occurs => .of_lookup_eq (same name occurs)

/-- `-1 / x >> y` where `x` has more than 64 bits and `y` is negative. -/
theorem reference_inlined_congruent_quotient :
    let quotient (a : Int) := binary .shr (binary .div (integer a) (var "x")) (var "y")
    let bindings : Bindings := [("x", 2 ^ 64 + 7), ("y", 2 - 2 ^ 64)]
    let residues : Bindings := [("z", 0), ("y", 2), ("x", 7)]
    let result : Except ReferenceError Word := .ok 658812288346769700
    ((quotient (-1)).doubles = [] ∧ bindings.Covers (quotient (-1)).names ∧
        (quotient (-1)).Congruent (quotient (2 ^ 64 - 1)) ∧
        ∀ name ∈ (quotient (-1)).names, bindings.AgreeOn residues name) ∧
      (quotient (-1)).reference bindings = result ∧
      ((quotient (-1)).inlined bindings).reference [] = result ∧
      (quotient (2 ^ 64 - 1)).reference residues = result ∧
      (quotient (-1)).reference (bindings ++ residues) = result := by
  intro quotient bindings residues result
  have congruent : (quotient (-1)).Congruent (quotient (2 ^ 64 - 1)) :=
    .binary _ (.binary _ (.integer (by decide)) (.var "x")) (.var "y")
  have agree : ∀ name ∈ (quotient (-1)).names, bindings.AgreeOn residues name := by
    refine List.forall_mem_cons.mpr ⟨.some (by decide), ?_⟩
    exact List.forall_mem_singleton.mpr (.some (by decide))
  have found : (quotient (-1)).reference bindings = result := by decide +kernel
  obtain ⟨_, inlined, others, local_⟩ := reference_inlined_congruent (quotient (-1)) bindings
  refine ⟨⟨rfl, by decide, congruent, agree⟩, found, inlined.trans found,
    (others _ residues congruent agree).trans found, (local_ _ ?_).trans found⟩
  exact List.forall_mem_cons.mpr ⟨rfl, List.forall_mem_singleton.mpr rfl⟩

end Expr
end CExpr
