import Mathlib.Data.List.Forall2

/-!
# Results

When a chain of steps that may fail ends well, and when it fails.
-/

namespace Aggregation.Result

variable {ε δ α β : Type}

theorem bind_eq_ok_iff {first : Except ε α} {next : α → Except ε β}
    {value : β} :
    (first >>= next) = .ok value ↔
      ∃ middle, first = .ok middle ∧ next middle = .ok value := by
  cases first with
  | error error => simp [bind, Except.bind]
  | ok middle => simp [bind, Except.bind]

theorem bind_eq_error_iff {first : Except ε α} {next : α → Except ε β}
    {error : ε} :
    (first >>= next) = .error error ↔
      first = .error error ∨
        ∃ middle, first = .ok middle ∧ next middle = .error error := by
  cases first with
  | error error => simp [bind, Except.bind]
  | ok middle => simp [bind, Except.bind]

theorem mapError_eq_ok_iff {result : Except ε α} {f : ε → δ} {value : α} :
    result.mapError f = .ok value ↔ result = .ok value := by
  cases result with
  | error error => exact ⟨nofun, nofun⟩
  | ok inner =>
      constructor
      · intro h
        exact congrArg Except.ok (Except.ok.inj h)
      · intro h
        exact congrArg Except.ok (Except.ok.inj h)

theorem mapError_eq_error_iff {result : Except ε α} {f : ε → δ} {error : δ} :
    result.mapError f = .error error ↔
      ∃ inner, result = .error inner ∧ f inner = error := by
  cases result with
  | error inner =>
      constructor
      · intro h
        exact ⟨inner, rfl, Except.error.inj h⟩
      · rintro ⟨other, hother, rfl⟩
        rw [Except.error.inj hother]
        rfl
  | ok value => exact ⟨nofun, nofun⟩

theorem map_eq_ok_iff {result : Except ε α} {f : α → β} {value : β} :
    result.map f = .ok value ↔ ∃ inner, result = .ok inner ∧
      f inner = value := by
  cases result <;> simp [Except.map]

theorem map_eq_error_iff {result : Except ε α} {f : α → β} {error : ε} :
    result.map f = .error error ↔ result = .error error := by
  cases result <;> simp [Except.map]

/-- A fold that fails does so at its first element that fails. -/
theorem foldlM_eq_error_iff {step : β → α → Except ε β} {start : β}
    {elements : List α} {error : ε} :
    elements.foldlM step start = .error error ↔
      ∃ before element after reached,
        elements = before ++ element :: after ∧
          before.foldlM step start = .ok reached ∧
          step reached element = .error error := by
  induction elements generalizing start with
  | nil => simp [pure, Except.pure]
  | cons head tail ih =>
      rw [List.foldlM_cons, bind_eq_error_iff]
      constructor
      · rintro (hhead | ⟨middle, hmiddle, htail⟩)
        · exact ⟨[], head, tail, start, rfl, rfl, hhead⟩
        · obtain ⟨before, element, after, reached, rfl, hbefore, hfails⟩ :=
            ih.mp htail
          refine ⟨head :: before, element, after, reached, rfl, ?_, hfails⟩
          rw [List.foldlM_cons, hmiddle]
          exact hbefore
      · rintro ⟨before, element, after, reached, hsplit, hbefore, hfails⟩
        cases before with
        | nil =>
            obtain ⟨rfl, rfl⟩ := List.cons.inj hsplit
            cases hbefore
            exact .inl hfails
        | cons first before =>
            obtain ⟨rfl, rfl⟩ := List.cons.inj hsplit
            rw [List.foldlM_cons, bind_eq_ok_iff] at hbefore
            obtain ⟨middle, hmiddle, hrest⟩ := hbefore
            exact .inr ⟨middle, hmiddle,
              ih.mpr ⟨before, element, after, reached, rfl, hrest, hfails⟩⟩

/-- What is related to something item by item is related to a list. -/
theorem exists_forall₂_iff {R : α → β → Prop} {left : List α} :
    (∃ right, List.Forall₂ R left right) ↔ ∀ a ∈ left, ∃ b, R a b := by
  induction left with
  | nil => simp
  | cons a left ih =>
      rw [List.forall_mem_cons, ← ih]
      constructor
      · rintro ⟨_, hright⟩
        cases hright with
        | cons hhead htail => exact ⟨⟨_, hhead⟩, _, htail⟩
      · rintro ⟨⟨b, hhead⟩, right, htail⟩
        exact ⟨b :: right, .cons hhead htail⟩

/-- Steps that all end well give the list of what each gives. -/
theorem mapM_eq_pure {m : Type → Type} [Monad m] [LawfulMonad m]
    {step : α → m β} {elements : List α} {values : List β}
    (h : List.Forall₂ (fun element value => step element = pure value) elements
      values) :
    elements.mapM step = pure values := by
  induction h with
  | nil => rfl
  | cons hhead _ ih => rw [List.mapM_cons, hhead, ih, pure_bind, pure_bind]

/-- Where a chain ends well only through steps that do, so does a list of
steps. -/
theorem mapM_eq_pure_iff {m : Type → Type} [Monad m] [LawfulMonad m]
    (hbind : ∀ {γ δ : Type} {first : m γ} {next : γ → m δ} {value : δ},
      first >>= next = pure value →
        ∃ middle, first = pure middle ∧ next middle = pure value)
    (hpure : ∀ {γ : Type} {left right : γ},
      (pure left : m γ) = pure right → left = right)
    {step : α → m β} {elements : List α} {values : List β} :
    elements.mapM step = pure values ↔
      List.Forall₂ (fun element value => step element = pure value) elements
        values := by
  refine ⟨fun h => ?_, mapM_eq_pure⟩
  induction elements generalizing values with
  | nil =>
      obtain rfl := hpure h
      exact .nil
  | cons element elements ih =>
      rw [List.mapM_cons] at h
      obtain ⟨value, hvalue, hchain⟩ := hbind h
      obtain ⟨rest, hrest, hvalues⟩ := hbind hchain
      obtain rfl := hpure hvalues
      exact .cons hvalue (ih hrest)

theorem mapM_eq_ok_iff {step : α → Except ε β} {elements : List α}
    {values : List β} :
    elements.mapM step = .ok values ↔
      List.Forall₂ (fun element value => step element = .ok value) elements
        values :=
  mapM_eq_pure_iff bind_eq_ok_iff.mp Except.ok.inj

theorem mapM_eq_some_iff {step : α → Option β} {elements : List α}
    {values : List β} :
    elements.mapM step = some values ↔
      List.Forall₂ (fun element value => step element = some value) elements
        values :=
  mapM_eq_pure_iff Option.bind_eq_some_iff.mp Option.some.inj

theorem exists_mapM_eq_ok_iff {step : α → Except ε β} {elements : List α} :
    (∃ values, elements.mapM step = .ok values) ↔
      ∀ element ∈ elements, ∃ value, step element = .ok value := by
  simp only [mapM_eq_ok_iff, exists_forall₂_iff]

theorem exists_mapM_eq_some_iff {step : α → Option β} {elements : List α} :
    (∃ values, elements.mapM step = some values) ↔
      ∀ element ∈ elements, ∃ value, step element = some value := by
  simp only [mapM_eq_some_iff, exists_forall₂_iff]

/-- Steps that do not all end well fail as the first of them that fails. -/
theorem mapM_eq_error_iff {step : α → Except ε β} {elements : List α}
    {error : ε} :
    elements.mapM step = .error error ↔
      ∃ before element after, elements = before ++ element :: after ∧
        (∀ earlier ∈ before, ∃ value, step earlier = .ok value) ∧
        step element = .error error := by
  induction elements with
  | nil => simp [pure, Except.pure]
  | cons head tail ih =>
      rw [List.mapM_cons, bind_eq_error_iff]
      constructor
      · rintro (hhead | ⟨value, hvalue, hrest⟩)
        · exact ⟨[], head, tail, rfl, nofun, hhead⟩
        · rcases bind_eq_error_iff.mp hrest with htail | ⟨_, _, hcontra⟩
          · obtain ⟨before, element, after, rfl, hbefore, helement⟩ :=
              ih.mp htail
            exact ⟨head :: before, element, after, rfl,
              List.forall_mem_cons.mpr ⟨⟨value, hvalue⟩, hbefore⟩, helement⟩
          · cases hcontra
      · rintro ⟨before, element, after, hsplit, hbefore, helement⟩
        cases before with
        | nil =>
            obtain ⟨rfl, rfl⟩ := List.cons.inj hsplit
            exact .inl helement
        | cons first before =>
            obtain ⟨rfl, rfl⟩ := List.cons.inj hsplit
            obtain ⟨⟨value, hvalue⟩, hrest⟩ := List.forall_mem_cons.mp hbefore
            exact .inr ⟨value, hvalue, bind_eq_error_iff.mpr
              (.inl (ih.mpr ⟨before, element, after, rfl, hrest, helement⟩))⟩

/-- A property holds of a whole list, or there is a first element without it. -/
theorem forall_or_first (P : α → Prop) (elements : List α) :
    (∀ element ∈ elements, P element) ∨
      ∃ before element after, elements = before ++ element :: after ∧
        (∀ earlier ∈ before, P earlier) ∧ ¬ P element := by
  induction elements with
  | nil => exact .inl nofun
  | cons head tail ih =>
      by_cases hhead : P head
      · rcases ih with htail | ⟨before, element, after, rfl, hbefore, helement⟩
        · exact .inl (List.forall_mem_cons.mpr ⟨hhead, htail⟩)
        · exact .inr ⟨head :: before, element, after, rfl,
            List.forall_mem_cons.mpr ⟨hhead, hbefore⟩, helement⟩
      · exact .inr ⟨[], head, tail, rfl, nofun, hhead⟩

/-- What was written item by item is read item by item. -/
theorem mapM_map_eq_pure {m : Type → Type} [Monad m] [LawfulMonad m]
    {write : β → α} {read : α → m β} {values : List β}
    (h : ∀ value ∈ values, read (write value) = pure value) :
    (values.map write).mapM read = pure values :=
  mapM_eq_pure (List.forall₂_map_left_iff.mpr (List.forall₂_same.mpr h))

end Aggregation.Result
