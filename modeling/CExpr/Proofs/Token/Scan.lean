import CExpr.Proofs.Token.Pattern

/-!
Cutting a text by the ordered alternatives, one match after the other, until the text ends or
nothing matches. Every scan ends, in one way only, and what it finds is what the tokenizer returns.
The tokens cover the text up to where the scan stops: each is the longest piece of any class at its
place, and only blanks lie outside them.
-/
namespace CExpr
open Text

/-- The tokens found from a place on, and what ends the scan: the end of the text, given by its
place, or a character at which nothing matches. -/
inductive Scan : Nat → List Char → List Token → Except UnexpectedCharacter Nat → Prop
  | finish {position : Nat} : Scan position [] [] (.ok position)
  | refuse {position : Nat} {first : Char} {rest : List Char} :
      Pattern.firstMatch (first :: rest) = none →
      Scan position (first :: rest) [] (.error ⟨first, position⟩)
  | blank {position : Nat} {first : Char} {rest run behind : List Char} {tokens : List Token}
      {outcome : Except UnexpectedCharacter Nat} :
      Pattern.firstMatch (first :: rest) = some (none, behind) → first :: rest = run ++ behind →
      Scan (position + run.length) behind tokens outcome →
      Scan position (first :: rest) tokens outcome
  | token {position : Nat} {first : Char} {rest piece behind : List Char} {cls : TokenClass}
      {tokens : List Token} {outcome : Except UnexpectedCharacter Nat} :
      Pattern.firstMatch (first :: rest) = some (some cls, behind) →
      first :: rest = piece ++ behind → Scan (position + piece.length) behind tokens outcome →
      Scan position (first :: rest) (⟨cls, piece, position⟩ :: tokens) outcome

namespace Scan

variable {position : Nat} {first : Char} {rest text behind : List Char} {cls : TokenClass}
  {tokens : List Token} {outcome : Except UnexpectedCharacter Nat}

theorem firstMatch_eq_none : Pattern.firstMatch (first :: rest) = none ↔
    isBlank first = false ∧ Token.munch? first rest = none := by
  rw [Pattern.firstMatch_cons]
  by_cases blank : isBlank first = true <;> simp [blank]

theorem firstMatch_eq_blank : Pattern.firstMatch (first :: rest) = some (none, behind) ↔
    isBlank first = true ∧ rest.dropWhile isBlank = behind := by
  rw [Pattern.firstMatch_cons]
  by_cases blank : isBlank first = true <;> simp [blank]

theorem firstMatch_eq_token : Pattern.firstMatch (first :: rest) = some (some cls, behind) ↔
    isBlank first = false ∧
      ∃ extra, Token.munch? first rest = some (cls, extra) ∧ rest.drop extra = behind := by
  rw [Pattern.firstMatch_cons]
  by_cases blank : isBlank first = true
  · simp [blank]
  · rw [if_neg blank, Option.map_eq_some_iff]
    constructor
    · rintro ⟨⟨_, extra⟩, munched, ⟨⟩⟩
      exact ⟨by simpa using blank, extra, munched, rfl⟩
    · rintro ⟨_, extra, munched, rfl⟩
      exact ⟨(cls, extra), munched, rfl⟩

theorem run_of_blank {run : List Char}
    (found : Pattern.firstMatch (first :: rest) = some (none, behind))
    (whole : first :: rest = run ++ behind) : run ≠ [] ∧ ∀ c ∈ run, isBlank c = true := by
  obtain ⟨blank, rfl⟩ := firstMatch_eq_blank.mp found
  have same : run = first :: rest.takeWhile isBlank := by
    apply (List.append_left_inj (rest.dropWhile isBlank)).mp
    rw [← whole, List.cons_append, List.takeWhile_append_dropWhile]
  rw [same]
  exact ⟨List.cons_ne_nil _ _, List.forall_mem_cons.mpr ⟨blank, Token.mem_takeWhile⟩⟩

theorem piece_of_token {piece : List Char}
    (found : Pattern.firstMatch (first :: rest) = some (some cls, behind))
    (whole : first :: rest = piece ++ behind) : ∃ more, piece = first :: more ∧
      rest = more ++ behind ∧ isBlank first = false ∧
      Token.munch? first (more ++ behind) = some (cls, more.length) := by
  obtain ⟨solid, extra, munched, rfl⟩ := firstMatch_eq_token.mp found
  have within := (Token.munch_belongs munched).1
  refine ⟨rest.take extra, ?_, (List.take_append_drop extra rest).symm, solid, ?_⟩
  · apply (List.append_left_inj (rest.drop extra)).mp
    rw [← whole, List.cons_append, List.take_append_drop]
  · rw [List.take_append_drop, munched, List.length_take_of_le within]

/-- The loop ends: each match takes at least one character. -/
theorem exists_scan (position : Nat) (text : List Char) :
    ∃ tokens outcome, Scan position text tokens outcome := by
  match text with
  | [] => exact ⟨[], _, .finish⟩
  | first :: rest =>
      match found : Pattern.firstMatch (first :: rest) with
      | none => exact ⟨[], _, .refuse found⟩
      | some (none, behind) =>
          obtain ⟨_, rfl⟩ := firstMatch_eq_blank.mp found
          have whole : first :: rest = (first :: rest.takeWhile isBlank) ++
              rest.dropWhile isBlank := by rw [List.cons_append, List.takeWhile_append_dropWhile]
          obtain ⟨tokens, outcome, later⟩ := exists_scan
            (position + (first :: rest.takeWhile isBlank).length) (rest.dropWhile isBlank)
          exact ⟨tokens, outcome, .blank found whole later⟩
      | some (some cls, behind) =>
          obtain ⟨_, extra, _, rfl⟩ := firstMatch_eq_token.mp found
          have whole : first :: rest = (first :: rest.take extra) ++ rest.drop extra := by
            rw [List.cons_append, List.take_append_drop]
          obtain ⟨tokens, outcome, later⟩ := exists_scan
            (position + (first :: rest.take extra).length) (rest.drop extra)
          exact ⟨_, outcome, .token found whole later⟩
termination_by text.length
decreasing_by
  · exact Nat.lt_succ_of_le (List.dropWhile_suffix _).length_le
  · exact Nat.lt_succ_of_le (List.drop_suffix _ _).length_le

theorem unique (scan : Scan position text tokens outcome) {others : List Token}
    {other : Except UnexpectedCharacter Nat} (again : Scan position text others other) :
    others = tokens ∧ other = outcome := by
  induction scan generalizing others other with
  | finish =>
      cases again
      exact ⟨rfl, rfl⟩
  | refuse found =>
      cases again with
      | refuse _ => exact ⟨rfl, rfl⟩
      | blank other _ _ | token other _ _ => cases found.symm.trans other
  | blank found whole _ ih =>
      cases again with
      | refuse other | token other _ _ => cases found.symm.trans other
      | blank other same later =>
          cases found.symm.trans other
          cases (List.append_left_inj _).mp (whole.symm.trans same)
          exact ih later
  | token found whole _ ih =>
      cases again with
      | refuse other | blank other _ _ => cases found.symm.trans other
      | token other same later =>
          cases found.symm.trans other
          cases (List.append_left_inj _).mp (whole.symm.trans same)
          obtain ⟨rfl, rfl⟩ := ih later
          exact ⟨rfl, rfl⟩

theorem tokensFrom_blanks {run : List Char} (blanks : ∀ c ∈ run, isBlank c = true)
    (position : Nat) (behind : List Char) :
    tokensFrom position (run ++ behind) = tokensFrom (position + run.length) behind := by
  induction run generalizing position with
  | nil => rfl
  | cons c run ih =>
      obtain ⟨blank, blanks⟩ := List.forall_mem_cons.mp blanks
      rw [List.cons_append, tokensFrom, if_pos blank, ih blanks, List.length_cons, Nat.add_assoc,
        Nat.add_comm 1]

theorem tokensFrom_eq (scan : Scan position text tokens outcome) :
    tokensFrom position text = outcome.map fun _ => tokens := by
  induction scan with
  | finish => rw [tokensFrom]; rfl
  | refuse found =>
      obtain ⟨solid, stuck⟩ := firstMatch_eq_none.mp found
      rw [tokensFrom, if_neg (by simp [solid]), stuck]
      rfl
  | blank found whole _ ih =>
      rw [whole, tokensFrom_blanks (run_of_blank found whole).2, ih]
  | @token position first rest piece behind cls tokens outcome found whole _ ih =>
      obtain ⟨more, rfl, rfl, solid, munched⟩ := piece_of_token found whole
      rw [Spells.cut_token solid behind position munched, Nat.add_assoc, Nat.add_comm 1]
      rw [List.length_cons] at ih
      rw [ih]
      cases outcome <;> rfl

end Scan

structure Covers (text : List Char) (start stop : Nat) (tokens : List Token) : Prop where
  slice : ∀ token ∈ tokens, token.text <+: text.drop token.position
  within : ∀ token ∈ tokens, start ≤ token.position ∧ token.position + token.text.length ≤ stop
  ordered : tokens.Pairwise fun left right =>
    left.position < right.position ∧ left.position + left.text.length ≤ right.position
  belongs : ∀ token ∈ tokens, Token.Belongs token.cls token.text
  longest : ∀ token ∈ tokens, ∀ cls piece, Token.Belongs cls piece →
    piece <+: text.drop token.position → piece.length ≤ token.text.length
  /-- What is in no token is blank. -/
  gaps : ∀ place, start ≤ place → place < stop →
    (∀ token ∈ tokens, place < token.position ∨ token.position + token.text.length ≤ place) →
    ∃ c ∈ text[place]?, isBlank c = true

namespace Covers

variable {text : List Char} {start middle stop : Nat} {tokens : List Token}

theorem nil (text : List Char) (place : Nat) : Covers text place place [] where
  slice := by simp
  within := by simp
  ordered := .nil
  belongs := by simp
  longest := by simp
  gaps place first last := absurd last (Nat.not_lt.mpr first)

theorem skip (below : start ≤ middle) (blanks : ∀ place, start ≤ place → place < middle →
      ∃ c ∈ text[place]?, isBlank c = true)
    (later : Covers text middle stop tokens) : Covers text start stop tokens where
  slice := later.slice
  within token member := by
    obtain ⟨first, last⟩ := later.within token member
    exact ⟨Nat.le_trans below first, last⟩
  ordered := later.ordered
  belongs := later.belongs
  longest := later.longest
  gaps place first last outside := by
    by_cases front : place < middle
    · exact blanks place first front
    · exact later.gaps place (Nat.le_of_not_lt front) last outside

theorem cons {token : Token} (position : token.position = start)
    (slice : token.text <+: text.drop start) (belongs : Token.Belongs token.cls token.text)
    (longest : ∀ cls piece, Token.Belongs cls piece → piece <+: text.drop start →
      piece.length ≤ token.text.length) (reach : start + token.text.length ≤ stop)
    (later : Covers text (start + token.text.length) stop tokens) :
    Covers text start stop (token :: tokens) where
  slice := by
    subst position
    exact List.forall_mem_cons.mpr ⟨slice, later.slice⟩
  within := by
    refine List.forall_mem_cons.mpr ⟨⟨Nat.le_of_eq position.symm, position ▸ reach⟩, ?_⟩
    intro other member
    obtain ⟨first, last⟩ := later.within other member
    exact ⟨Nat.le_trans (Nat.le_add_right _ _) first, last⟩
  ordered := by
    refine List.pairwise_cons.mpr ⟨?_, later.ordered⟩
    intro other member
    have first := (later.within other member).1
    have nonempty := List.length_pos_iff.mpr belongs.ne_nil
    omega
  belongs := List.forall_mem_cons.mpr ⟨belongs, later.belongs⟩
  longest := by
    subst position
    exact List.forall_mem_cons.mpr ⟨longest, later.longest⟩
  gaps place first last outside := by
    obtain ⟨here, outside⟩ := List.forall_mem_cons.mp outside
    exact later.gaps place (by omega) last outside

end Covers

namespace Scan

variable {position : Nat} {text whole : List Char} {tokens : List Token}
  {outcome : Except UnexpectedCharacter Nat}

def stop : Except UnexpectedCharacter Nat → Nat
  | .ok place => place
  | .error refused => refused.position

theorem le_stop (scan : Scan position text tokens outcome) : position ≤ stop outcome := by
  induction scan with
  | finish | refuse _ => exact Nat.le_refl _
  | blank _ _ _ ih | token _ _ _ ih => exact Nat.le_trans (Nat.le_add_right _ _) ih

theorem covers (scan : Scan position text tokens outcome) (here : whole.drop position = text) :
    Covers whole position (stop outcome) tokens := by
  induction scan with
  | finish | refuse _ => exact .nil whole _
  | @blank position first rest run behind tokens outcome found split later ih =>
      rw [split] at here
      have next : whole.drop (position + run.length) = behind := by
        rw [← List.drop_drop, here, List.drop_left]
      refine .skip (Nat.le_add_right _ _) ?_ (ih next)
      -- A place in the run has the character of the run at that distance from its start.
      intro place first last
      have inside : place - position < run.length := by omega
      refine ⟨run[place - position], ?_, (run_of_blank found split).2 _ (List.getElem_mem inside)⟩
      have shifted :
          (whole.drop position)[place - position]? = whole[position + (place - position)]? :=
        List.getElem?_drop
      rw [here, List.getElem?_append_left inside, List.getElem?_eq_getElem inside,
        Nat.add_sub_of_le first] at shifted
      exact shifted.symm
  | @token position first rest piece behind cls tokens outcome found split later ih =>
      obtain ⟨more, rfl, rfl, _, munched⟩ := piece_of_token found split
      have next : whole.drop (position + (first :: more).length) = behind := by
        rw [← List.drop_drop, here, split, List.drop_left]
      have belongs := (Token.munch_belongs munched).2
      rw [List.take_left] at belongs
      refine .cons rfl ⟨behind, split.symm.trans here.symm⟩ belongs ?_ (le_stop later) (ih next)
      intro cls piece member front
      rw [here] at front
      exact Token.munch_longest member front munched

end Scan

/-- What it means to stop: the text is at its end, or neither a blank nor a piece of any class
begins at the place. -/
def Scan.Ends (text : List Char) : Except UnexpectedCharacter Nat → Prop
  | .ok place => place = text.length
  | .error refused => ∃ behind, text.drop refused.position = refused.character :: behind ∧
      isBlank refused.character = false ∧
      ∀ cls piece, Token.Belongs cls piece → ¬ piece <+: refused.character :: behind

theorem Scan.ends {position : Nat} {text whole : List Char} {tokens : List Token}
    {outcome : Except UnexpectedCharacter Nat} (scan : Scan position text tokens outcome)
    (here : whole.drop position = text) (inside : position ≤ whole.length) :
    Ends whole outcome := by
  induction scan with
  | finish => exact Nat.le_antisymm inside (List.drop_eq_nil_iff.mp here)
  | @refuse position first rest found =>
      obtain ⟨solid, stuck⟩ := firstMatch_eq_none.mp found
      exact ⟨rest, here, solid, fun _ _ member => Token.not_prefix_of_munch_eq_none member stuck⟩
  | @blank position first rest run behind tokens outcome _ split _ ih
  | @token position first rest run behind cls tokens outcome _ split _ ih =>
      rw [split] at here
      have length := congrArg List.length here
      rw [List.length_drop, List.length_append] at length
      apply ih
      · rw [← List.drop_drop, here, List.drop_left]
      · omega

def spaced (pieces : List Piece) : List Char := [' '].intercalate (pieces.map (·.text))

theorem spaced_nil : spaced [] = [] := List.intercalate_nil

theorem spaced_cons (piece : Piece) (rest : List Piece) : spaced (piece :: rest) =
    if rest = [] then piece.text else piece.text ++ ' ' :: spaced rest := by
  cases rest with
  | nil => exact List.intercalate_singleton
  | cons next more => simp [spaced, List.intercalate_cons_cons]

theorem Spells.nil : Spells [] [] := by
  intro rest position _
  refine ⟨[], rfl, ?_⟩
  rw [List.nil_append, List.length_nil, Nat.add_zero]
  cases tokensFrom position rest <;> rfl

theorem spells_spaced {pieces : List Piece}
    (legal : ∀ piece ∈ pieces, Token.Belongs piece.cls piece.text) :
    Spells (spaced pieces) pieces := by
  induction pieces with
  | nil => exact spaced_nil ▸ Spells.nil
  | cons piece pieces ih =>
      obtain ⟨here, legal⟩ := List.forall_mem_cons.mp legal
      have first := Spells.ofClass here
      rw [spaced_cons]
      split
      · rename_i last
        rw [last]
        exact first
      · exact first.spaced (ih legal)

/-- Every text has one scan, which ends. The tokenizer returns its tokens, or the character at which
it stops; they cover the text up to where it stops, nothing begins there, and the pieces, joined by
single spaces, are cut into themselves. -/
theorem tokenize_maximal (text : List Char) : ∃ tokens outcome,
    Scan 0 text tokens outcome ∧
    (∀ others other, Scan 0 text others other → others = tokens ∧ other = outcome) ∧
    tokenize text = (outcome.map fun _ => tokens) ∧
    Covers text 0 (Scan.stop outcome) tokens ∧ Scan.Ends text outcome ∧
    ∃ again, tokenize (spaced (tokens.map Token.piece)) = .ok again ∧
      again.map Token.piece = tokens.map Token.piece := by
  obtain ⟨tokens, outcome, scan⟩ := Scan.exists_scan 0 text
  have covers := scan.covers rfl
  refine ⟨tokens, outcome, scan, fun _ _ again => scan.unique again, scan.tokensFrom_eq, covers,
    scan.ends rfl (Nat.zero_le _), ?_⟩
  apply Spells.tokenize (spells_spaced _)
  intro piece member
  obtain ⟨token, listed, rfl⟩ := List.mem_map.mp member
  exact covers.belongs token listed

end CExpr
