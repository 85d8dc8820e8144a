import CExpr.Proofs.Expr.Lexeme
import CExpr.Proofs.Expr.ReferenceOutcome

/-!
The table of names that expressions share when they are lowered one after the other. It lists the names
that have been met, each where it was met first. An expression is read from left to right, and a double
ends the reading of this expression: the names to the left of it have been met, and the next expression
goes on from there.
-/
namespace CExpr

namespace Lexeme

def isDouble : Lexeme → Bool
  | double _ => true
  | _ => false

def name? : Lexeme → Option String
  | identifier name => some name
  | _ => none

/-- The names in front of the first double, as often as they occur. -/
def namesMet (lexemes : List Lexeme) : List String :=
  (lexemes.takeWhile (!·.isDouble)).filterMap name?

theorem namesMet_append (first second : List Lexeme) :
    namesMet (first ++ second) =
      namesMet first ++ if first.any isDouble then [] else namesMet second := by
  induction first with
  | nil => rfl
  | cons lexeme rest ih =>
      cases lexeme with
      | double value => rfl
      | identifier name => exact congrArg (name :: ·) ih
      | integer | operator | leftParen | rightParen => exact ih

end Lexeme

namespace SymbolTable

variable {symbols : SymbolTable} {name : String}

theorem add_of_mem (known : name ∈ symbols) : symbols.add name = symbols :=
  if_pos (List.contains_iff_mem.mpr known)

theorem add_of_not_mem (unknown : name ∉ symbols) : symbols.add name = symbols ++ [name] :=
  if_neg fun known => unknown (List.contains_iff_mem.mp known)

theorem prefix_add (symbols : SymbolTable) (name : String) : symbols <+: symbols.add name := by
  by_cases known : name ∈ symbols
  · exact (add_of_mem known).symm ▸ List.prefix_rfl
  · exact (add_of_not_mem known).symm ▸ List.prefix_append symbols [name]

theorem prefix_foldl_add (names : List String) (symbols : SymbolTable) :
    symbols <+: names.foldl add symbols := by
  induction names generalizing symbols with
  | nil => exact List.prefix_rfl
  | cons name rest ih => exact (symbols.prefix_add name).trans (ih (symbols.add name))

theorem add_eraseDups (seen : List String) (name : String) :
    add seen.eraseDups name = (seen ++ [name]).eraseDups := by
  rw [List.eraseDups_append]
  by_cases known : name ∈ seen
  · rw [add_of_mem (List.mem_eraseDups.mpr known)]
    simp [List.removeAll, known]
  · rw [add_of_not_mem (mt List.mem_eraseDups.mp known)]
    simp [List.removeAll, known, List.eraseDups_cons]

theorem foldl_add_eraseDups (seen names : List String) :
    names.foldl add seen.eraseDups = (seen ++ names).eraseDups := by
  induction names generalizing seen with
  | nil => rw [List.foldl_nil, List.append_nil]
  | cons name rest ih => rw [List.foldl_cons, add_eraseDups, ih, List.append_assoc, List.singleton_append]

end SymbolTable

namespace Expr

theorem any_lexemes (e : Expr) : e.lexemes.any Lexeme.isDouble = e.hasDouble := by
  induction e with
  | integer value | double value | var name => rfl
  | unary op operand ih => exact ih
  | binary op lhs rhs left right =>
      rw [lexemes, List.any_append, left, List.any_cons, right]
      rfl
  | parens inner ih =>
      rw [lexemes, List.any_append, List.any_cons, ih]
      exact Bool.or_false _

/-- What lowering an expression adds to a table are the names that it meets. -/
theorem lower_snd (e : Expr) (symbols : SymbolTable) :
    (e.lower symbols).2 = (Lexeme.namesMet e.lexemes).foldl SymbolTable.add symbols := by
  induction e generalizing symbols with
  | integer value | double value | var name => rfl
  | unary op operand ih => exact ih symbols
  | parens inner ih =>
      have closing (p : Bool) : (if p then [] else Lexeme.namesMet [.rightParen]) = [] := by
        cases p <;> rfl
      rw [lexemes, Lexeme.namesMet_append, closing, List.append_nil]
      exact ih symbols
  | binary op lhs rhs left right =>
      have inLeft := left symbols
      rw [lexemes, Lexeme.namesMet_append, any_lexemes, List.foldl_append, ← inLeft]
      cases found : lhs.hasDouble with
      | true =>
          obtain ⟨noWord, table, lowered⟩ := lower_eq_error found symbols
          rw [lower, lowered]
          rfl
      | false =>
          obtain ⟨term, _, lowers⟩ := lower_of_hasDouble found
          obtain ⟨table, lowered, _⟩ := lowers symbols
          rw [lower, lowered]
          exact right table

/-- Whether there is a double settles the outcome, and the table plays no part in it. -/
theorem lower_fst_cases (e : Expr) :
    (e.doubles = [] ∧ ∃ term, ∀ symbols, (e.lower symbols).1 = .ok term) ∨
      (e.doubles ≠ [] ∧ ∃ noWord, ∀ symbols, (e.lower symbols).1 = .error noWord) := by
  cases found : e.doubles with
  | nil =>
      obtain ⟨term, _, lowers⟩ := lower_of_hasDouble (hasDouble_eq_false_iff.mpr found)
      refine .inl ⟨rfl, term, fun symbols => ?_⟩
      obtain ⟨table, lowered, _⟩ := lowers symbols
      rw [lowered]
  | cons first rest =>
      refine .inr ⟨List.cons_ne_nil first rest, ⟨first⟩, fun symbols => ?_⟩
      obtain ⟨table, lowered⟩ := lower_of_doubles found symbols
      rw [lowered]

theorem lower_fst (e : Expr) (symbols other : SymbolTable) :
    (e.lower symbols).1 = (e.lower other).1 := by
  rcases e.lower_fst_cases with ⟨_, term, lowers⟩ | ⟨_, noWord, fails⟩
  · rw [lowers, lowers]
  · rw [fails, fails]

theorem exists_lower_iff {e : Expr} {symbols : SymbolTable} :
    (∃ term, (e.lower symbols).1 = .ok term) ↔ e.doubles = [] := by
  rcases e.lower_fst_cases with ⟨whole, term, lowers⟩ | ⟨broken, noWord, fails⟩
  · exact ⟨fun _ => whole, fun _ => ⟨term, lowers symbols⟩⟩
  · refine ⟨fun ⟨term, lowered⟩ => ?_, fun whole => absurd whole broken⟩
    cases (fails symbols).symm.trans lowered

/-- Expressions lowered one after the other with one table: what each comes to, and the table after it. -/
def lowerAll : List Expr → SymbolTable → List (Except NoWord Term × SymbolTable)
  | [], _ => []
  | e :: rest, symbols => e.lower symbols :: lowerAll rest (e.lower symbols).2

theorem lowerAll_eraseDups (trees : List Expr) (seen : List String) :
    lowerAll trees seen.eraseDups = trees.mapIdx fun index e =>
      ((e.lower []).1,
        (seen ++ (trees.take (index + 1)).flatMap (Lexeme.namesMet ·.lexemes)).eraseDups) := by
  induction trees generalizing seen with
  | nil => rfl
  | cons e rest ih =>
      have table : (e.lower seen.eraseDups).2 =
          (seen ++ Lexeme.namesMet e.lexemes).eraseDups := by
        rw [lower_snd, SymbolTable.foldl_add_eraseDups]
      have first : e.lower seen.eraseDups =
          ((e.lower []).1, (seen ++ Lexeme.namesMet e.lexemes).eraseDups) :=
        Prod.ext (e.lower_fst _ _) table
      rw [lowerAll, table, ih, List.mapIdx_cons, first]
      simp

/-- Whatever came before, each expression comes to what it comes to alone, which is a term unless it has
a double. The table after it lists the names that have been met up to there, each once and in the
order in which they were met first. Nothing that a table lists is lost or moved by the next expression. -/
theorem lowerAll_table (trees : List Expr) :
    (lowerAll trees [] = trees.mapIdx fun index e =>
      ((e.lower []).1, ((trees.take (index + 1)).flatMap (Lexeme.namesMet ·.lexemes)).eraseDups)) ∧
    (∀ e : Expr, (∃ term, (e.lower []).1 = .ok term) ↔ e.doubles = []) ∧
    ∀ (e : Expr) (symbols : SymbolTable), symbols <+: (e.lower symbols).2 := by
  refine ⟨lowerAll_eraseDups trees [], fun e => exists_lower_iff, fun e symbols => ?_⟩
  rw [lower_snd]
  exact SymbolTable.prefix_foldl_add _ symbols

/-- `y + x`, then `w * 0.0 + z`, which is not read to its end, then `x - z`. -/
example :
    let broken := binary .plus (binary .mult (var "w") (double (.zero false))) (var "z")
    (lowerAll [binary .plus (var "y") (var "x"), broken, binary .minus (var "x") (var "z")] []).map
        Prod.snd =
      [["y", "x"], ["y", "x", "w"], ["y", "x", "w", "z"]] := by
  decide

end Expr
end CExpr
