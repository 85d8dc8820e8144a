import CExpr.Proofs.Term.Relevance

/-!
A trial of assumptions misses nothing. Whatever values meet the assumptions, the trial comes past
those values without the bits that do not matter, which meet them as well; and what the trial finds
does meet them.
-/
namespace CExpr

namespace Term

variable {env other : String → Word}

theorem eval_congr {term : Term} (same : ∀ name ∈ term.names, env name = other name) :
    term.eval env = term.eval other := by
  induction term with
  | word value => rfl
  | symbol name => exact same name List.mem_cons_self
  | unary op operand ih => exact congrArg op.apply (ih same)
  | binary op lhs rhs left right =>
      have inLeft : ∀ name ∈ lhs.names, env name = other name := fun name member =>
        same name (List.mem_eraseDups.mpr (List.mem_append_left _ member))
      have inRight : ∀ name ∈ rhs.names, env name = other name := fun name member =>
        same name (List.mem_eraseDups.mpr (List.mem_append_right _ member))
      rw [eval, eval, left inLeft, right inRight]

end Term

namespace Sample

variable {sample : Sample} {env : String → Word} {name : String}

theorem value_eq (entries : ∀ entry ∈ sample, entry.2 = env entry.1)
    (present : name ∈ sample.map (·.1)) : sample.value name = env name := by
  induction sample with
  | nil => cases present
  | cons entry rest ih =>
      obtain ⟨first, word⟩ := entry
      rw [value, List.lookup_cons]
      by_cases same : name = first
      · rw [same, beq_self_eq_true]
        exact entries (first, word) List.mem_cons_self
      · rw [beq_eq_false_iff_ne.mpr same]
        refine ih (fun entry member => entries entry (List.mem_cons_of_mem _ member)) ?_
        rw [List.map_cons, List.mem_cons] at present
        exact present.resolve_left same

end Sample

namespace Assumptions

variable {a : Assumptions} {env : String → Word} {sample result : Sample}

theorem areMetAt_iff : a.areMetAt sample = true ↔ a.IsMet sample.value :=
  List.all_eq_true

theorem exists_of_firstWord? {found? : Word → Option Sample} {word : Word} {bits : List Nat}
    (found : firstWord? found? word bits = some result) : ∃ word, found? word = some result := by
  induction bits generalizing word with
  | nil => exact ⟨word, found⟩
  | cons bit rest ih =>
      rw [firstWord?] at found
      cases first : firstWord? found? word rest with
      | some result =>
          rw [first] at found
          cases found
          exact ih first
      | none =>
          rw [first] at found
          exact ih found

/-- A search over words that finds nothing has nothing at any word that has the bits it started with
and otherwise only bits that it varies. -/
theorem eq_none_of_firstWord? {found? : Word → Option Sample} {word target : Word} {bits : List Nat}
    (nothing : firstWord? found? word bits = none) (inside : ∀ bit ∈ bits, bit < 64)
    (covers : ∀ i, word.getLsbD i = true → target.getLsbD i = true)
    (within : ∀ i, target.getLsbD i = true → word.getLsbD i = true ∨ i ∈ bits) :
    found? target = none := by
  induction bits generalizing word with
  | nil =>
      have same : word = target := by
        apply BitVec.eq_of_getLsbD_eq
        intro i _
        rw [Bool.eq_iff_iff]
        exact ⟨covers i, fun has => (within i has).resolve_right List.not_mem_nil⟩
      rw [← same]
      exact nothing
  | cons bit rest ih =>
      rw [firstWord?] at nothing
      cases without : firstWord? found? word rest with
      | some result => rw [without] at nothing; cases nothing
      | none => ?_
      rw [without] at nothing
      have later : ∀ bit ∈ rest, bit < 64 := fun b member => inside b (List.mem_cons_of_mem _ member)
      -- The target says at each bit which of the two ways leads to it.
      cases chosen : target.getLsbD bit with
      | false =>
          refine ih without later covers fun i has => ?_
          rcases within i has with before | member
          · exact .inl before
          · refine .inr ((List.mem_cons.mp member).resolve_left ?_)
            rintro rfl
            rw [chosen] at has
            cases has
      | true =>
          have added := Word.getLsbD_or_twoPow word (inside bit List.mem_cons_self)
          refine ih nothing later (fun i has => ?_) fun i has => ?_
          · rcases (added i).mp has with before | rfl
            · exact covers i before
            · exact chosen
          · rw [added]
            rcases within i has with before | member
            · exact .inl (.inl before)
            · rcases List.mem_cons.mp member with rfl | later
              · exact .inl (.inr rfl)
              · exact .inr later

theorem areMetAt_of_trial {varied : List Varied} (found : a.trial sample varied = some result) :
    a.areMetAt result = true := by
  induction varied generalizing sample with
  | nil =>
      rw [trial] at found
      split at found
      · rename_i met
        cases found
        exact met
      · cases found
  | cons v rest ih =>
      obtain ⟨word, found⟩ := exists_of_firstWord? found
      exact ih found

def settled (env : String → Word) (varied : List Varied) (sample : Sample) : Sample :=
  varied.foldl (fun sample v => (v.name, env v.name) :: sample) sample

theorem areMetAt_of_trial_eq_none {varied : List Varied} (nothing : a.trial sample varied = none)
    (inside : ∀ v ∈ varied, ∀ bit ∈ v.bits, bit < 64)
    (within : ∀ v ∈ varied, ∀ i, (env v.name).getLsbD i = true → i ∈ v.bits) :
    a.areMetAt (settled env varied sample) = false := by
  induction varied generalizing sample with
  | nil =>
      rw [trial] at nothing
      split at nothing
      · cases nothing
      · rename_i unmet
        exact Bool.eq_false_iff.mpr unmet
  | cons v rest ih =>
      obtain ⟨name, bits⟩ := v
      have here := @eq_none_of_firstWord? _ _ (env name) _ nothing (inside _ List.mem_cons_self)
        (fun i has => absurd has (by simp)) fun i has => .inr (within _ List.mem_cons_self i has)
      exact ih here (fun v member => inside v (List.mem_cons_of_mem _ member))
        fun v member => within v (List.mem_cons_of_mem _ member)

theorem isMet_of_sample? (found : a.sample? = some sample) : a.IsMet sample.value :=
  areMetAt_iff.mp (areMetAt_of_trial found)

def wantedOf (terms : List Term) (name : String) : Word :=
  terms.foldl (fun bits term => bits ||| term.bitsOf name (-1)) 0

theorem getLsbD_wantedOf {terms : List Term} {term : Term} (member : term ∈ terms) (name : String)
    {i : Nat} (matters : (term.bitsOf name (-1)).getLsbD i = true) :
    (wantedOf terms name).getLsbD i = true := by
  have step : ∀ start : Word, start.getLsbD i = true ∨ term ∈ terms →
      (terms.foldl (fun bits term => bits ||| term.bitsOf name (-1)) start).getLsbD i = true := by
    clear member
    induction terms with
    | nil => exact fun start has => has.resolve_right List.not_mem_nil
    | cons first rest ih =>
        intro start has
        apply ih
        rw [BitVec.getLsbD_or, Bool.or_eq_true]
        rcases has with before | member
        · exact .inl (.inl before)
        · rcases List.mem_cons.mp member with rfl | later
          · exact .inl (.inr matters)
          · exact .inr later
  exact step 0 (.inr member)

def trimmed (a : Assumptions) (env : String → Word) (name : String) : Word :=
  env name &&& wantedOf a.terms name

theorem eval_trimmed {term : Term} (member : term ∈ a.terms) :
    term.eval (a.trimmed env) = term.eval env := by
  apply Word.Agree.eq_of_all
  refine Term.eval_agree fun name i matters => ?_
  rw [trimmed, BitVec.getLsbD_and, getLsbD_wantedOf member name matters, Bool.and_true]

theorem settled_entries {varied : List Varied}
    (entries : ∀ entry ∈ sample, entry.2 = env entry.1) :
    ∀ entry ∈ settled env varied sample, entry.2 = env entry.1 := by
  induction varied generalizing sample with
  | nil => exact entries
  | cons v rest ih => exact ih (List.forall_mem_cons.mpr ⟨rfl, entries⟩)

theorem mem_settled_names {varied : List Varied} {name : String} :
    name ∈ (settled env varied sample).map (·.1) ↔
      name ∈ sample.map (·.1) ∨ name ∈ varied.map (·.name) := by
  induction varied generalizing sample with
  | nil => simp [settled]
  | cons v rest ih =>
      have step : settled env (v :: rest) sample = settled env rest ((v.name, env v.name) :: sample) :=
        rfl
      rw [step, ih]
      simp only [List.map_cons, List.mem_cons]
      exact or_assoc.trans or_left_comm

theorem mem_varied {v : Varied} (member : v ∈ a.varied) (i : Nat) :
    i ∈ v.bits ↔ (wantedOf a.terms v.name).getLsbD i = true := by
  obtain ⟨name, _, rfl⟩ := List.mem_map.mp member
  rw [List.mem_filter, List.mem_range]
  exact and_iff_right_of_imp BitVec.lt_of_getLsbD

/-- Assumptions for which a trial finds nothing are met by no values. -/
theorem not_isMet_of_sample? (nothing : a.sample? = none) (env : String → Word) : ¬ a.IsMet env := by
  intro met
  have names : a.varied.map (·.name) = (a.terms.flatMap Term.names).eraseDups := by
    rw [varied, List.map_map]
    exact List.map_id _
  let passed := settled (a.trimmed env) a.varied []
  have unmet : a.areMetAt passed = false := by
    refine areMetAt_of_trial_eq_none nothing (fun v member bit has => ?_) fun v member i has => ?_
    · exact BitVec.lt_of_getLsbD ((mem_varied member bit).mp has)
    · rw [trimmed, BitVec.getLsbD_and, Bool.and_eq_true] at has
      exact (mem_varied member i).mpr has.2
  have value : ∀ term ∈ a.terms, term.eval passed.value = term.eval env := by
    intro term member
    refine Eq.trans (Term.eval_congr fun name within => ?_) (eval_trimmed member)
    refine Sample.value_eq (settled_entries (List.forall_mem_nil _)) (mem_settled_names.mpr (.inr ?_))
    rw [names, List.mem_eraseDups]
    exact List.mem_flatMap.mpr ⟨term, member, within⟩
  have met' : a.areMetAt passed = true := by
    refine areMetAt_iff.mpr fun term member => ?_
    rw [Term.isMet, value term member]
    exact met term member
  exact Bool.false_ne_true (unmet.symm.trans met')

end Assumptions
end CExpr
