import CExpr.Proofs.Polynomial.Equation

/-!
Bitwise operators on polynomials. Operands may be taken apart, put in order and joined again, since
bitwise operators mind neither order nor grouping; an operand that stands twice counts once, or not
at all where the disjunction is exclusive.
-/
namespace CExpr

namespace Polynomial

variable {env : String → Word} {op : BinOp}

def neutral (op : BinOp) : Word := if op = .bitAnd then -1 else 0

def joined (env : String → Word) (op : BinOp) (terms : List Term) : Word :=
  terms.foldr (fun t value => op.apply (t.eval env) value) (neutral op)

theorem apply_neutral (bitwise : isBitwise op = true) (a : Word) : op.apply a (neutral op) = a := by
  cases op with
  | bitAnd => exact BitVec.and_allOnes
  | bitOr => exact BitVec.or_zero
  | bitXor => exact BitVec.xor_zero
  | _ => cases bitwise

theorem apply_assoc (bitwise : isBitwise op = true) (a b c : Word) :
    op.apply (op.apply a b) c = op.apply a (op.apply b c) := by
  cases op with
  | bitAnd => exact BitVec.and_assoc a b c
  | bitOr => exact BitVec.or_assoc a b c
  | bitXor => exact BitVec.xor_assoc a b c
  | _ => cases bitwise

theorem apply_comm (bitwise : isBitwise op = true) (a b : Word) : op.apply a b = op.apply b a :=
  BinOp.apply_comm (by cases op <;> first | rfl | cases bitwise) a b

theorem apply_left_comm (bitwise : isBitwise op = true) (a b c : Word) :
    op.apply a (op.apply b c) = op.apply b (op.apply a c) := by
  rw [← apply_assoc bitwise, apply_comm bitwise a b, apply_assoc bitwise]

@[simp] theorem joined_nil : joined env op [] = neutral op := rfl

@[simp] theorem joined_cons (t : Term) (terms : List Term) :
    joined env op (t :: terms) = op.apply (t.eval env) (joined env op terms) := rfl

theorem joined_append (bitwise : isBitwise op = true) (first second : List Term) :
    joined env op (first ++ second) = op.apply (joined env op first) (joined env op second) := by
  induction first with
  | nil => rw [List.nil_append, joined_nil, apply_comm bitwise, apply_neutral bitwise]
  | cons t rest ih => rw [List.cons_append, joined_cons, joined_cons, ih, apply_assoc bitwise]

theorem joined_parts (bitwise : isBitwise op = true) (t : Term) :
    joined env op (parts op t) = t.eval env := by
  fun_induction parts op t with
  | case1 lhs rhs left right => rw [joined_append bitwise, left, right]; rfl
  | case2 other lhs rhs _ => exact apply_neutral bitwise _
  | case3 t _ => exact apply_neutral bitwise _

theorem parts_ne_nil (op : BinOp) (t : Term) : parts op t ≠ [] := by
  fun_induction parts op t with
  | case1 lhs rhs left right => simp [left]
  | case2 | case3 => exact List.cons_ne_nil _ _

theorem apply_self_apply (bitwise : isBitwise op = true) (a b : Word) :
    op.apply a (op.apply a b) = if op = .bitXor then b else op.apply a b := by
  rw [← apply_assoc bitwise]
  cases op with
  | bitAnd => exact congrArg (· &&& b) BitVec.and_self
  | bitOr => exact congrArg (· ||| b) BitVec.or_self
  | bitXor => simp [BinOp.apply]
  | _ => cases bitwise

theorem joined_join (bitwise : isBitwise op = true) (t : Term) (terms : List Term) :
    joined env op (join op t terms) = op.apply (t.eval env) (joined env op terms) := by
  fun_induction join op t terms with
  | case1 t => rfl
  | case2 rest c d => exact apply_assoc bitwise c d _
  | case3 rest t exclusive _ =>
      rw [joined_cons, apply_self_apply bitwise, if_pos exclusive]
  | case4 rest t inclusive _ =>
      rw [joined_cons, apply_self_apply bitwise, if_neg inclusive]
  | case5 => rfl
  | case6 first rest t _ _ _ ih => rw [joined_cons, joined_cons, ih, apply_left_comm bitwise]

theorem joined_foldr_join (bitwise : isBitwise op = true) (terms : List Term) :
    joined env op (terms.foldr (join op) []) = joined env op terms := by
  induction terms with
  | nil => rfl
  | cons t rest ih => rw [List.foldr_cons, joined_join bitwise, ih, joined_cons]

theorem join_ne_nil (keeps : op ≠ .bitXor) (t : Term) (terms : List Term) : join op t terms ≠ [] := by
  fun_induction join op t terms with
  | case3 rest t exclusive _ => exact absurd exclusive keeps
  | _ => exact List.cons_ne_nil _ _

theorem foldr_join_ne_nil (keeps : op ≠ .bitXor) {terms : List Term} (nonempty : terms ≠ []) :
    terms.foldr (join op) [] ≠ [] := by
  cases terms with
  | nil => exact absurd rfl nonempty
  | cons t rest => exact join_ne_nil keeps t _

theorem eval_foldl_binary (bitwise : isBitwise op = true) (t : Term) (terms : List Term) :
    (terms.foldl (.binary op) t).eval env = op.apply (t.eval env) (joined env op terms) := by
  induction terms generalizing t with
  | nil => exact (apply_neutral bitwise _).symm
  | cons first rest ih =>
      rw [List.foldl_cons, ih, joined_cons, ← apply_assoc bitwise]
      rfl

theorem eval_of_ofUniform {c : Word} {p q : Polynomial} (found : ofUniform op c p = some q) :
    eval env q = op.apply c (eval env p) ∧ isBitwise op = true := by
  unfold ofUniform at found
  split at found
  · rename_i null
    rw [null]
    split at found
    · cases found
      exact ⟨BitVec.zero_and.symm, rfl⟩
    · cases found
      exact ⟨BitVec.zero_or.symm, rfl⟩
    · cases found
      exact ⟨BitVec.zero_xor.symm, rfl⟩
    · cases found
  · split at found
    · rename_i all
      rw [all]
      split at found
      · cases found
        exact ⟨BitVec.allOnes_and.symm, rfl⟩
      · cases found
        rw [eval_constant]
        exact ⟨BitVec.allOnes_or.symm, rfl⟩
      · cases found
        rw [eval_sub, eval_constant]
        refine ⟨?_, rfl⟩
        have complement : ~~~(eval env p) = -1 - eval env p := by
          rw [BitVec.not_eq_neg_add]
          grind
        rw [← complement]
        exact BitVec.allOnes_xor.symm
      · cases found
    · cases found

theorem eval_chained (bitwise : isBitwise op = true) {terms : List Term}
    (legal : terms ≠ [] ∨ op = .bitXor) : eval env (chained op terms) = joined env op terms := by
  unfold chained
  split
  · rcases legal with legal | rfl
    · exact absurd rfl legal
    · rfl
  · rw [eval_constant]
    exact (apply_neutral bitwise _).symm
  · rw [eval_single]
    exact (apply_neutral bitwise _).symm
  · rename_i c t rest
    have whole : (Term.binary op (.word c) (rest.foldl (.binary op) t)).eval env =
        joined env op (.word c :: t :: rest) :=
      congrArg (op.apply c) (eval_foldl_binary bitwise t rest)
    dsimp only
    cases found : ofUniform op c (single (rest.foldl (.binary op) t)) with
    | none => rw [Option.getD_none, eval_single, whole]
    | some q =>
        rw [Option.getD_some, (eval_of_ofUniform found).1, eval_single]
        exact whole
  · rw [eval_single, eval_foldl_binary bitwise, joined_cons]

theorem eval_of_ofEqual {p q : Polynomial} (found : ofEqual op p = some q) :
    eval env q = op.apply (eval env p) (eval env p) := by
  cases op with
  | bitAnd => cases found; exact BitVec.and_self.symm
  | bitOr => cases found; exact BitVec.or_self.symm
  | bitXor => cases found; exact BitVec.xor_self.symm
  | _ => cases found

theorem eval_getD {found? : Option Polynomial} {otherwise : Polynomial} {value : Word}
    (known : ∀ p, found? = some p → eval env p = value) (unknown : eval env otherwise = value) :
    eval env (found?.getD otherwise) = value := by
  cases found? with
  | none => exact unknown
  | some p => exact known p rfl

theorem eval_residue (op : BinOp) (p q : Polynomial) :
    eval env (residue op p q) = op.apply (eval env p) (eval env q) := by
  refine eval_getD (fun r found => ?_) ?_
  · split at found
    · rename_i c d left right
      cases found
      rw [eval_constant, eval_of_constant? env left, eval_of_constant? env right]
    · rename_i c left _
      rw [(eval_of_ofUniform found).1, eval_of_constant? env left]
    · rename_i d _ right
      obtain ⟨same, bitwise⟩ := @eval_of_ofUniform env _ _ _ _ found
      rw [same, eval_of_constant? env right, apply_comm bitwise]
    · split at found
      · rename_i same
        rw [eval_of_ofEqual found, same]
      · cases found
  · split
    · rename_i bitwise
      have nonempty : parts op p.toTerm ++ parts op q.toTerm ≠ [] := by simp [parts_ne_nil]
      rw [eval_chained bitwise, joined_foldr_join bitwise, joined_append bitwise,
        joined_parts bitwise, joined_parts bitwise, eval_toTerm, eval_toTerm]
      by_cases exclusive : op = .bitXor
      · exact .inr exclusive
      · exact .inl (foldr_join_ne_nil exclusive nonempty)
    · rw [eval_single, eval_oriented, eval_toTerm, eval_toTerm]

end Polynomial
end CExpr
