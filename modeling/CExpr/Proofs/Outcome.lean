/-!
Results that may be errors: what follows about the parts when a whole that is put together from them
is a success or an error.
-/
namespace CExpr

variable {ε ε' α β : Type}

theorem bind_eq_ok {x : Except ε α} {f : α → Except ε β} {b : β} :
    x >>= f = .ok b ↔ ∃ a, x = .ok a ∧ f a = .ok b := by
  cases x with
  | error e =>
      constructor
      · intro returned
        cases returned
      · rintro ⟨a, same, _⟩
        cases same
  | ok a =>
      constructor
      · intro returned
        exact ⟨a, rfl, returned⟩
      · rintro ⟨other, same, returned⟩
        cases same
        exact returned

theorem bind_eq_error {x : Except ε α} {f : α → Except ε β} {e : ε} :
    x >>= f = .error e ↔ x = .error e ∨ ∃ a, x = .ok a ∧ f a = .error e := by
  cases x with
  | error other =>
      constructor
      · intro failed
        cases failed
        exact .inl rfl
      · rintro (same | ⟨a, same, _⟩) <;> cases same
        rfl
  | ok a =>
      constructor
      · intro failed
        exact .inr ⟨a, rfl, failed⟩
      · rintro (same | ⟨other, same, failed⟩) <;> cases same
        exact failed

theorem mapError_eq_ok {f : ε → ε'} {x : Except ε α} {a : α} :
    x.mapError f = .ok a ↔ x = .ok a := by
  cases x with
  | error e => constructor <;> intro same <;> cases same
  | ok found => constructor <;> intro same <;> cases same <;> rfl

/-- Steps that succeed or fail whatever they start from succeed one after the other if each of them can
succeed. -/
theorem exists_foldlM_eq_ok_iff {step : β → α → Except ε β}
    (uniform : ∀ {a b after} other, step b a = .ok after → ∃ result, step other a = .ok result)
    {items : List α} (start : β) :
    (∃ last, items.foldlM step start = .ok last) ↔
      ∀ a ∈ items, ∃ b after, step b a = .ok after := by
  induction items generalizing start with
  | nil => simp [List.foldlM_nil, pure, Except.pure]
  | cons first rest ih =>
      rw [List.forall_mem_cons, List.foldlM_cons]
      constructor
      · rintro ⟨last, returned⟩
        obtain ⟨middle, taken, later⟩ := bind_eq_ok.mp returned
        exact ⟨⟨start, middle, taken⟩, (ih middle).mp ⟨last, later⟩⟩
      · rintro ⟨⟨b, after, taken⟩, others⟩
        obtain ⟨middle, here⟩ := uniform start taken
        obtain ⟨last, later⟩ := (ih middle).mpr others
        exact ⟨last, bind_eq_ok.mpr ⟨middle, here, later⟩⟩

/-! Renaming the errors of the parts renames those of the whole. -/
section Renaming

variable {f : ε → ε'}

theorem bind_eq_mapError {x : Except ε α} {y : Except ε' α} {g : α → Except ε β}
    {h : α → Except ε' β} (first : y = x.mapError f)
    (later : ∀ a, x = .ok a → h a = (g a).mapError f) : y >>= h = (x >>= g).mapError f := by
  subst first
  cases x with
  | error e => rfl
  | ok a => exact later a rfl

theorem mapM_eq_mapError {g : α → Except ε β} {h : α → Except ε' β} {items : List α}
    (each : ∀ a ∈ items, h a = (g a).mapError f) : items.mapM h = (items.mapM g).mapError f := by
  induction items with
  | nil => rfl
  | cons first rest ih =>
      obtain ⟨here, others⟩ := List.forall_mem_cons.mp each
      rw [List.mapM_cons, List.mapM_cons]
      exact bind_eq_mapError here fun _ _ => bind_eq_mapError (ih others) fun _ _ => rfl

/-- Two kinds of steps that differ in their errors alone, as long as something holds that every step
keeps. -/
theorem foldlM_eq_mapError (Holds : β → Prop) {step : β → α → Except ε β}
    {other : β → α → Except ε' β} {items : List α}
    (alike : ∀ b, Holds b → ∀ a ∈ items, other b a = (step b a).mapError f)
    (kept : ∀ b, Holds b → ∀ a ∈ items, ∀ after, step b a = .ok after → Holds after)
    {start : β} (holds : Holds start) :
    items.foldlM other start = (items.foldlM step start).mapError f := by
  induction items generalizing start with
  | nil => rfl
  | cons first rest ih =>
      rw [List.foldlM_cons, List.foldlM_cons]
      refine bind_eq_mapError (alike start holds first List.mem_cons_self) fun middle taken => ?_
      refine ih ?_ ?_ (kept start holds first List.mem_cons_self middle taken)
      · exact fun b holds a member => alike b holds a (List.mem_cons_of_mem _ member)
      · exact fun b holds a member => kept b holds a (List.mem_cons_of_mem _ member)

end Renaming

theorem foldlM_keeps {step : β → α → Except ε β} {Holds : β → Prop} {items : List α}
    (kept : ∀ b, Holds b → ∀ a ∈ items, ∀ after, step b a = .ok after → Holds after)
    {start last : β} (holds : Holds start) (returned : items.foldlM step start = .ok last) :
    Holds last := by
  induction items generalizing start with
  | nil =>
      cases returned
      exact holds
  | cons first rest ih =>
      rw [List.foldlM_cons] at returned
      obtain ⟨middle, taken, later⟩ := bind_eq_ok.mp returned
      refine ih ?_ (kept start holds first List.mem_cons_self middle taken) later
      exact fun b holds a member => kept b holds a (List.mem_cons_of_mem _ member)

theorem forall_of_mapM_eq_ok {g : α → Except ε β} {Holds : β → Prop}
    (each : ∀ {a b}, g a = .ok b → Holds b) {items : List α} {results : List β}
    (returned : items.mapM g = .ok results) : ∀ b ∈ results, Holds b := by
  induction items generalizing results with
  | nil =>
      cases returned
      exact nofun
  | cons first rest ih =>
      rw [List.mapM_cons] at returned
      obtain ⟨head, here, returned⟩ := bind_eq_ok.mp returned
      obtain ⟨others, later, same⟩ := bind_eq_ok.mp returned
      cases same
      exact List.forall_mem_cons.mpr ⟨each here, ih later⟩

theorem ok_of_toOption {x : Except ε α} {a : α} (found : x.toOption = some a) : x = .ok a := by
  cases x with
  | ok other => exact congrArg Except.ok (Option.some.inj found)
  | error e => cases found

end CExpr
