import CExpr.Proofs.Outcome
import CExpr.Proofs.Token.Scan
import Mathlib.Data.List.Chain

/-!
How C itself cuts a text into tokens: at each place blanks are skipped, and otherwise the longest
piece is taken that is an identifier, a number, a punctuator or the mark that opens a comment. C has
many more punctuators than there are operators in expressions, and its numbers go on for as long as
letters, digits, points and signs behind an exponent mark do. Its other tokens have quotes in them.
-/
namespace CExpr
open Text

/-- A number before it is looked at closely: a digit, perhaps behind a point, and whatever goes on. -/
inductive IsCNumber : List Char → Prop
  | digit {c : Char} : c.isDigit = true → IsCNumber [c]
  | point {c : Char} : c.isDigit = true → IsCNumber ['.', c]
  | character {number : List Char} {c : Char} : IsCNumber number → continuesIdentifier c = true →
      IsCNumber (number ++ [c])
  | fraction {number : List Char} : IsCNumber number → IsCNumber (number ++ ['.'])
  | exponent {number : List Char} {mark sign : Char} : IsCNumber number →
      mark ∈ ['e', 'E', 'p', 'P'] → (sign = '+' ∨ sign = '-') → IsCNumber (number ++ [mark, sign])

/-- All punctuators of C, those with a second spelling included. -/
def punctuators : List (List Char) :=
  [['['], [']'], ['('], [')'], ['{'], ['}'], ['.'], ['-', '>'],
    ['+', '+'], ['-', '-'], ['&'], ['*'], ['+'], ['-'], ['~'], ['!'],
    ['/'], ['%'], ['<', '<'], ['>', '>'], ['<'], ['>'], ['<', '='], ['>', '='], ['=', '='],
    ['!', '='], ['^'], ['|'], ['&', '&'], ['|', '|'],
    ['?'], [':'], [';'], ['.', '.', '.'],
    ['='], ['*', '='], ['/', '='], ['%', '='], ['+', '='], ['-', '='], ['<', '<', '='],
    ['>', '>', '='], ['&', '='], ['^', '='], ['|', '='],
    [','], ['#'], ['#', '#'],
    ['<', ':'], [':', '>'], ['<', '%'], ['%', '>'], ['%', ':'], ['%', ':', '%', ':']]

def commentMarks : List (List Char) := [['/', '/'], ['/', '*']]

inductive CToken : List Char → Prop
  | identifier {text : List Char} : isIdentifier text = true → CToken text
  | number {text : List Char} : IsCNumber text → CToken text
  | mark {text : List Char} : text ∈ punctuators ++ commentMarks → CToken text

structure Longest (piece text : List Char) : Prop where
  token : CToken piece
  front : piece <+: text
  longest : ∀ other, CToken other → other <+: text → other.length ≤ piece.length

def isCBlank (c : Char) : Bool := [' ', '\t', '\n', '\x0b', '\x0c'].contains c

/-- The pieces that are taken from a place on, each with the place where it stands. -/
inductive Split : Nat → List Char → List (Nat × List Char) → Prop
  | finish {position : Nat} : Split position [] []
  | blank {position : Nat} {first : Char} {rest : List Char} {placed : List (Nat × List Char)} :
      isCBlank first = true → Split (position + 1) rest placed →
      Split position (first :: rest) placed
  | token {position : Nat} {text piece behind : List Char} {placed : List (Nat × List Char)} :
      Longest piece text → text = piece ++ behind → Split (position + piece.length) behind placed →
      Split position text ((position, piece) :: placed)

/-! What the tokens of C look like. -/
section Shape

theorem continuesIdentifier_of_isDigit {c : Char} (digit : c.isDigit = true) :
    continuesIdentifier c = true := by
  simp [continuesIdentifier, Char.isAlphanum, digit]

theorem continuesIdentifier_of_startsIdentifier {c : Char} (starts : startsIdentifier c = true) :
    continuesIdentifier c = true := by
  simp only [startsIdentifier, continuesIdentifier, Char.isAlphanum, Bool.or_eq_true] at starts ⊢
  exact starts.imp_left .inl

theorem continuesIdentifier_of_mem {text : List Char} (shape : isIdentifier text = true) :
    ∀ c ∈ text, continuesIdentifier c = true := by
  cases text with
  | nil => cases shape
  | cons first more =>
      obtain ⟨starts, continues⟩ := Bool.and_eq_true_iff.mp shape
      exact List.forall_mem_cons.mpr
        ⟨continuesIdentifier_of_startsIdentifier starts, List.all_eq_true.mp continues⟩

theorem IsCNumber.head {text : List Char} (number : IsCNumber text) :
    ∃ first more, text = first :: more ∧ (first.isDigit = true ∨ first = '.') := by
  induction number with
  | digit digit => exact ⟨_, _, rfl, .inl digit⟩
  | point _ => exact ⟨_, _, rfl, .inr rfl⟩
  | character _ _ ih | fraction _ ih | exponent _ _ _ ih =>
      obtain ⟨first, more, rfl, front⟩ := ih
      exact ⟨first, _, rfl, front⟩

theorem IsCNumber.not_isStop {text : List Char} (number : IsCNumber text) :
    ∀ c ∈ text, ¬ Token.IsStop c := by
  have word {c : Char} (continues : continuesIdentifier c = true) : ¬ Token.IsStop c :=
    Token.not_isStop_of (by decide) (by decide) continues
  induction number with
  | digit digit =>
      exact List.forall_mem_singleton.mpr (word (continuesIdentifier_of_isDigit digit))
  | point digit =>
      exact List.forall_mem_cons.mpr ⟨by simp [Token.IsStop],
        List.forall_mem_singleton.mpr (word (continuesIdentifier_of_isDigit digit))⟩
  | character _ continues ih =>
      exact List.forall_mem_append.mpr ⟨ih, List.forall_mem_singleton.mpr (word continues)⟩
  | fraction _ ih =>
      exact List.forall_mem_append.mpr
        ⟨ih, List.forall_mem_singleton.mpr (by simp [Token.IsStop])⟩
  | exponent _ marks signs ih =>
      have letters : ['e', 'E', 'p', 'P'].all continuesIdentifier = true := by decide
      have mark := word (List.all_eq_true.mp letters _ marks)
      refine List.forall_mem_append.mpr ⟨ih, List.forall_mem_cons.mpr ⟨mark, ?_⟩⟩
      rcases signs with rfl | rfl <;> simp [Token.IsStop]

namespace CToken

variable {text more : List Char} {first : Char}

theorem ne_nil (token : CToken text) : text ≠ [] := by
  rintro rfl
  cases token with
  | identifier shape => cases shape
  | number number =>
      obtain ⟨_, _, empty, _⟩ := number.head
      cases empty
  | mark listed => exact absurd listed (by decide)

theorem solid (token : CToken (first :: more)) : isBlank first = false := by
  cases token with
  | identifier shape => exact Token.isBlank_of_startsIdentifier (Bool.and_eq_true_iff.mp shape).1
  | number number =>
      obtain ⟨_, _, same, front⟩ := number.head
      cases same
      rcases front with digit | rfl
      · exact Token.isBlank_of_isDigit digit
      · decide
  | mark listed =>
      have solid : ∀ text ∈ punctuators ++ commentMarks, text.head?.any isBlank = false := by
        decide +kernel
      exact solid _ listed

theorem inner (token : CToken text) : ∀ c ∈ text.tail, ¬ Token.IsStop c := by
  intro c inside
  have member := List.mem_of_mem_tail inside
  cases token with
  | identifier shape =>
      have continues := continuesIdentifier_of_mem shape c member
      exact Token.not_isStop_of (by decide) (by decide) continues
  | number number => exact number.not_isStop c member
  | mark listed =>
      have apart : ∀ text ∈ punctuators ++ commentMarks, ' ' ∉ text.tail ∧ ')' ∉ text.tail := by
        decide
      rintro (rfl | rfl)
      · exact (apart text listed).1 inside
      · exact (apart text listed).2 inside

/-- What begins neither with a letter nor with a digit nor with a point is in the list. -/
theorem listed (token : CToken (first :: more)) (noStart : startsIdentifier first = false)
    (noDigit : first.isDigit = false) (noPoint : first ≠ '.') :
    first :: more ∈ punctuators ++ commentMarks := by
  cases token with
  | identifier shape => cases noStart.symm.trans (Bool.and_eq_true_iff.mp shape).1
  | number number =>
      obtain ⟨_, _, same, front⟩ := number.head
      cases same
      rcases front with digit | rfl
      · cases noDigit.symm.trans digit
      · exact absurd rfl noPoint
  | mark listed => exact listed

end CToken

theorem isBlank_of_isCBlank {c : Char} (blank : isCBlank c = true) : isBlank c = true := by
  have all : [' ', '\t', '\n', '\x0b', '\x0c'].all isBlank = true := by decide
  exact List.all_eq_true.mp all c (List.contains_iff_mem.mp blank)

end Shape

/-! When a piece is the longest one. -/
section Front

variable {piece rest : List Char}

theorem Longest.alone (token : CToken piece) (stops : Stops rest) :
    Longest piece (piece ++ rest) := by
  refine ⟨token, List.prefix_append _ _, fun other isToken front => Nat.le_of_not_lt fun longer => ?_⟩
  -- Something longer would have the stop inside it.
  obtain ⟨beyond, rfl⟩ :=
    List.prefix_of_prefix_length_le (List.prefix_append piece rest) front (Nat.le_of_lt longer)
  obtain ⟨first, run, rfl⟩ := List.exists_cons_of_ne_nil token.ne_nil
  cases beyond with
  | nil => simp at longer
  | cons stop behind =>
      obtain ⟨_, rfl⟩ := (List.prefix_append_right_inj _).mp front
      refine isToken.inner stop ?_ (stops stop rfl)
      rw [List.cons_append, List.tail_cons]
      exact List.mem_append_right _ List.mem_cons_self

def continuations (c : Char) : List Char :=
  (punctuators ++ commentMarks).filterMap fun text =>
    if text.head? = some c then text.tail.head? else none

theorem Longest.single {c : Char} (mark : [c] ∈ punctuators ++ commentMarks)
    (noStart : startsIdentifier c = false) (noDigit : c.isDigit = false) (noPoint : c ≠ '.')
    (apart : ∀ next ∈ rest.head?, next ∉ continuations c) : Longest [c] (c :: rest) := by
  refine ⟨.mark mark, ⟨rest, rfl⟩, fun other isToken front => ?_⟩
  match other, isToken.ne_nil with
  | [_], _ => exact Nat.le_refl _
  | first :: next :: more, _ =>
      obtain ⟨rfl, behind, rfl⟩ := List.cons_prefix_cons.mp front
      refine absurd ?_ (apart next rfl)
      exact List.mem_filterMap.mpr
        ⟨_, isToken.listed noStart noDigit noPoint, by rw [List.head?_cons, if_pos rfl]; rfl⟩

/-- A slash alone would go together with a star, and that would open a comment. -/
example : continuations '/' = ['=', '/', '*'] ∧ continuations '-' = ['>', '-', '='] := by decide

end Front

namespace Split

variable {position : Nat} {text : List Char} {placed : List (Nat × List Char)}

theorem unique (split : Split position text placed) {others : List (Nat × List Char)}
    (again : Split position text others) : others = placed := by
  have blank_or_token {first : Char} {rest piece behind : List Char}
      (blank : isCBlank first = true) (long : Longest piece (first :: rest))
      (same : first :: rest = piece ++ behind) : False := by
    obtain ⟨c, more, rfl⟩ := List.exists_cons_of_ne_nil long.token.ne_nil
    cases (List.cons.inj same).1
    cases long.token.solid.symm.trans (isBlank_of_isCBlank blank)
  induction split generalizing others with
  | finish =>
      cases again with
      | finish => rfl
      | token long same _ =>
          exact absurd (List.append_eq_nil_iff.mp same.symm).1 long.token.ne_nil
  | blank blank _ ih =>
      cases again with
      | blank _ later => exact ih later
      | token long same _ => exact (blank_or_token blank long same).elim
  | token long same _ ih =>
      cases again with
      | finish => exact absurd (List.append_eq_nil_iff.mp same.symm).1 long.token.ne_nil
      | blank blank _ => exact (blank_or_token blank long same).elim
      | token other whole later =>
          have lengths := Nat.le_antisymm (long.longest _ other.token other.front)
            (other.longest _ long.token long.front)
          obtain ⟨rfl, rfl⟩ := List.append_inj (whole.symm.trans same) lengths
          rw [ih later]

/-- If the tokenizer takes the same pieces, it takes them at the same places. -/
theorem eq_of_tokensFrom (split : Split position text placed) {tokens : List Token}
    (cut : tokensFrom position text = .ok tokens)
    (same : placed.map Prod.snd = tokens.map Token.text) :
    placed = tokens.map fun token => (token.position, token.text) := by
  induction split generalizing tokens with
  | finish => exact List.map_eq_nil_iff.mp same.symm ▸ rfl
  | blank blank _ ih =>
      rw [tokensFrom, if_pos (isBlank_of_isCBlank blank)] at cut
      exact ih cut same
  | @token position text piece behind placed long whole _ ih =>
      subst whole
      obtain ⟨first, more, rfl⟩ := List.exists_cons_of_ne_nil long.token.ne_nil
      rw [List.cons_append, tokensFrom, if_neg (by simp [long.token.solid])] at cut
      split at cut
      · cases cut
      · rename_i cls extra found
        obtain ⟨others, later, grown⟩ := bind_eq_ok.mp cut
        cases grown
        obtain ⟨here, rest⟩ := List.cons.inj same
        obtain ⟨_, taken⟩ := List.cons.inj here
        have reach : extra = more.length := by
          rw [taken, List.length_take_of_le (Token.munch_belongs found).1]
        subst reach
        rw [List.drop_left, Nat.add_assoc, Nat.add_comm 1] at later
        rw [List.map_cons, ← ih later rest, ← taken]

end Split

theorem belongs_of_tokenize {text : List Char} {tokens : List Token}
    (cut : tokenize text = .ok tokens) :
    ∀ token ∈ tokens, Token.Belongs token.cls token.text := by
  obtain ⟨found, outcome, scan⟩ := Scan.exists_scan 0 text
  rw [tokenize, scan.tokensFrom_eq] at cut
  cases outcome with
  | error refused => cases cut
  | ok place =>
      cases cut
      exact (scan.covers rfl).belongs

/-! No sign is written next to itself in a text that C cuts into tokens of expressions. -/
section Signs

/-- A character that stands in the text at most within it, and never next to itself; but it can be the
whole text. -/
structure Lone (c : Char) (text : List Char) : Prop where
  apart : text.IsChain fun left right => ¬ (left = c ∧ right = c)
  last : text.getLast? = some c → text = [c]

variable {c : Char} {text before after : List Char}

theorem isChain_of_not_mem (absent : c ∉ text) :
    text.IsChain fun left right => ¬ (left = c ∧ right = c) := by
  have pairs : text.Pairwise fun left right => ¬ (left = c ∧ right = c) :=
    List.pairwise_of_forall_mem_list fun left member _ _ both => absent (both.1 ▸ member)
  exact pairs.isChain

theorem Lone.of_not_mem (absent : c ∉ text) : Lone c text :=
  ⟨isChain_of_not_mem absent, fun last => absurd (List.mem_of_getLast? last) absent⟩

theorem Lone.within (front : c ∉ before) (back : c ∉ after) (nonempty : after ≠ [])
    (sign : Char) : Lone c (before ++ sign :: after) := by
  constructor
  · refine List.isChain_append.mpr
      ⟨isChain_of_not_mem front, List.isChain_cons.mpr ⟨?_, isChain_of_not_mem back⟩, ?_⟩
    · exact fun next first both => back (both.2 ▸ List.mem_of_head? first)
    · exact fun left last _ _ both => front (both.1 ▸ List.mem_of_getLast? last)
  · intro last
    refine absurd (List.mem_of_getLast? ?_) back
    rw [← last, List.getLast?_append_of_ne_nil _ (List.cons_ne_nil _ _), List.getLast?_cons,
      List.getLast?_eq_some_getLast nonempty]
    rfl

theorem Lone.character (d : Char) : Lone c [d] :=
  ⟨.singleton d, fun last => by cases last; rfl⟩

theorem not_mem_digits (sign : c = '+' ∨ c = '-') {digits : List Char}
    (inside : ∀ c ∈ digits, isDigit c = true) : c ∉ digits := by
  intro member
  have digit := inside c member
  rcases sign with rfl | rfl <;> exact absurd digit (by decide)

theorem Lone.exponent (sign : c = '+' ∨ c = '-') {front tail : List Char} (absent : c ∉ front)
    (exponent : Token.IsExponent tail) : Lone c (front ++ tail) := by
  have noMark {mark : Char} (marks : mark = 'e' ∨ mark = 'E') : c ≠ mark := by
    rcases sign with rfl | rfl <;> rcases marks with rfl | rfl <;> decide
  cases exponent with
  | unsigned marks nonempty digits =>
      exact .of_not_mem (List.not_mem_append absent
        (List.not_mem_cons_of_ne_of_not_mem (noMark marks) (not_mem_digits sign digits)))
  | @signed mark sign' digits marks signs nonempty inside =>
      have front := List.not_mem_append absent
        (List.not_mem_cons_of_ne_of_not_mem (noMark marks) List.not_mem_nil)
      have whole := Lone.within front (not_mem_digits sign inside) nonempty sign'
      rwa [List.append_assoc] at whole

/-- A sign is a token of an expression by itself, and otherwise it is found in exponents only. -/
theorem lone_of_belongs (sign : c = '+' ∨ c = '-') {cls : TokenClass}
    (member : Token.Belongs cls text) : Lone c text := by
  cases member with
  | @pointed whole fraction tail _ inWhole inFraction form =>
      have point : c ≠ '.' := by rcases sign with rfl | rfl <;> decide
      have front : c ∉ whole ++ '.' :: fraction :=
        List.not_mem_append (not_mem_digits sign inWhole)
          (List.not_mem_cons_of_ne_of_not_mem point (not_mem_digits sign inFraction))
      have split : whole ++ '.' :: (fraction ++ tail) = whole ++ '.' :: fraction ++ tail := by simp
      rw [split]
      rcases form with rfl | exponent
      · rw [List.append_nil]
        exact .of_not_mem front
      · exact .exponent sign front exponent
  | scaled _ whole exponent => exact .exponent sign (not_mem_digits sign whole) exponent
  | integer _ digits => exact .of_not_mem (not_mem_digits sign digits)
  | identifier shape =>
      refine .of_not_mem fun member => ?_
      have continues := continuesIdentifier_of_mem shape c member
      rcases sign with rfl | rfl <;> exact absurd continues (by decide)
  | pair listed =>
      have noSigns : ∀ text ∈ Token.doubleOperators, '+' ∉ text ∧ '-' ∉ text := by decide
      obtain ⟨noPlus, noMinus⟩ := noSigns text listed
      rcases sign with rfl | rfl
      · exact .of_not_mem noPlus
      · exact .of_not_mem noMinus
  | single _ | leftParen | rightParen => exact .character _

/-- Where both rules take the same pieces, no sign stands next to itself: the two would be taken
together. -/
theorem Split.not_infix (sign : c = '+' ∨ c = '-') {position : Nat}
    {placed : List (Nat × List Char)} (split : Split position text placed)
    (lone : ∀ piece ∈ placed.map Prod.snd, Lone c piece) : ¬ [c, c] <:+: text := by
  have pair : CToken [c, c] := by rcases sign with rfl | rfl <;> exact .mark (by decide)
  have chain : text.IsChain fun left right => ¬ (left = c ∧ right = c) := by
    induction split with
    | finish => exact .nil
    | @blank position first rest placed blank _ ih =>
        refine List.isChain_cons.mpr ⟨?_, ih lone⟩
        rintro next _ ⟨rfl, _⟩
        rcases sign with rfl | rfl <;> exact absurd blank (by decide)
    | @token position text piece behind placed long whole _ ih =>
        obtain ⟨here, later⟩ := List.forall_mem_cons.mp lone
        subst whole
        refine List.isChain_append.mpr ⟨here.apart, ih later, ?_⟩
        rintro left last right first ⟨rfl, rfl⟩
        -- The piece would be the sign alone, though with the next one it is a longer token.
        cases here.last last
        obtain ⟨rest, rfl⟩ := List.head?_eq_some_iff.mp first
        exact absurd (long.longest _ pair ⟨rest, rfl⟩) (by simp)
  intro inside
  have both := chain.infix inside
  simp at both

end Signs
end CExpr
