import CExpr.Proofs.Expr.Bracketing
import CExpr.Proofs.Reader.Reprint

/-!
Texts that are read as another tree. A tree with plain leaves that is not grouped by precedence has a
text that can be read, but what is read is grouped otherwise, and no parentheses make up for it.
-/
namespace CExpr.Expr

variable {test : Expr → Prop} {e t : Expr} {allowed : Option (List String)}

theorem everyLeaf_withoutParens (all : e.EveryLeaf test) : e.withoutParens.EveryLeaf test := by
  induction e with
  | integer value | double value | var name => exact all
  | unary op operand ih | parens operand ih => exact ih all
  | binary op lhs rhs left right => exact ⟨left all.1, right all.2⟩

theorem eq_of_same (same : t.same e = true) (plain : t.EveryLeaf IsPlain)
    (other : e.EveryLeaf IsPlain) : t = e := by
  fun_induction Expr.same t e with
  | case1 a b => rw [beq_iff_eq.mp same]
  | case2 a b =>
      obtain ⟨units, fits, rfl⟩ := plain
      obtain ⟨number, within, rfl⟩ := other
      have numbers : (units : Int) = number := beq_iff_eq.mp same
      cases Int.ofNat.inj numbers
      rfl
  | case3 a b => rw [beq_iff_eq.mp same]
  | case4 p a q b ih =>
      simp only [Bool.and_eq_true, beq_iff_eq] at same
      rw [same.1, ih same.2 plain other]
  | case5 p a c q b d left right =>
      simp only [Bool.and_eq_true, beq_iff_eq] at same
      rw [same.1.1, left same.1.2 plain.1 other.1, right same.2 plain.2 other.2]
  | case6 a b ih => rw [ih same plain other]
  | case7 a b => cases same

theorem test_of_mem_lexemes {lexeme : Lexeme} {leaf : Expr} (all : e.EveryLeaf test)
    (member : lexeme ∈ e.lexemes) (single : leaf.children = [])
    (same : [lexeme] = leaf.lexemes) : test leaf := by
  have noMark : lexeme.cls ≠ .operator ∧ lexeme.cls ≠ .leftParen ∧ lexeme.cls ≠ .rightParen := by
    cases leaf with
    | integer value | double value | var name =>
        cases same
        exact ⟨nofun, nofun, nofun⟩
    | unary op operand | binary op lhs rhs | parens inner => cases single
  induction e with
  | integer value | double value | var name =>
      cases List.mem_singleton.mp member
      cases leaf with
      | integer _ | double _ | var _ => cases same <;> exact all
      | unary _ _ | binary _ _ _ | parens _ => cases single
  | unary op operand ih =>
      rcases List.mem_cons.mp member with rfl | inside
      · exact absurd rfl noMark.1
      · exact ih all inside
  | binary op lhs rhs left right =>
      rcases List.mem_append.mp member with first | others
      · exact left all.1 first
      · rcases List.mem_cons.mp others with rfl | later
        · exact absurd rfl noMark.1
        · exact right all.2 later
  | parens inner ih =>
      rcases List.mem_append.mp member with others | last
      · rcases List.mem_cons.mp others with rfl | inside
        · exact absurd rfl noMark.2.1
        · exact ih all inside
      · cases List.mem_singleton.mp last
        exact absurd rfl noMark.2.2

/-- The text of a tree that is not grouped by precedence is read, but as a tree that differs even
without all parentheses. -/
theorem exists_read_regrouped (plain : e.EveryLeaf IsPlain) (short : e.EveryLeaf IsShort)
    (listed : e.EveryLeaf (IsListed allowed)) (loose : ¬ e.PrecedenceCorrect) :
    ∃ t, Expr.read e.text.toList allowed = .ok t ∧
      t.withoutParens.same e.withoutParens = false := by
  obtain ⟨tokens, cut, means, readable⟩ := exists_tokens_of_plain plain short listed
  obtain ⟨t, reads, _⟩ := exists_reads_of_derives (derives_of_lexemes means)
  refine ⟨t, ?_, Bool.eq_false_iff.mpr fun same => loose ?_⟩
  · rw [text, String.toList_ofList, read_of_tokenize cut]
    exact Reader.readTokens_of_reads t tokens _ reads readable
  · have readPlain : t.EveryLeaf IsPlain :=
      everyLeaf_of_lexemes reads.lexemes fun token member _ single leaf =>
        test_of_mem_lexemes plain (means ▸ List.mem_map_of_mem member) single leaf
    -- Both have the same lexemes, so they could not even differ in their parentheses.
    have grouped := eq_of_same same (everyLeaf_withoutParens readPlain) (everyLeaf_withoutParens plain)
    have equal : t = e := eq_of_lexemes_eq (reads.lexemes.symm.trans means) grouped
    exact equal ▸ reads.grouped

end CExpr.Expr
