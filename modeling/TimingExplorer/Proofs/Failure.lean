import Mathlib.Logic.Basic

/-!
Outcomes of steps that may fail. Where items are worked off in order, the first that fails decides
on the error.
-/
namespace TimingExplorer

variable {α β ε : Type}

theorem bind_eq_ok {x : Except ε α} {f : α → Except ε β} {result : β} :
    x >>= f = .ok result ↔ ∃ value, x = .ok value ∧ f value = .ok result := by
  cases x <;> simp [bind, Except.bind]

theorem map_eq_ok {x : Except ε α} {f : α → β} {result : β} :
    x.map f = .ok result ↔ ∃ value, x = .ok value ∧ f value = result := by
  cases x <;> simp [Except.map]

theorem bind_eq_error {x : Except ε α} {f : α → Except ε β} {e : ε} :
    x >>= f = .error e ↔ x = .error e ∨ ∃ value, x = .ok value ∧ f value = .error e := by
  cases x <;> simp [bind, Except.bind]

theorem map_eq_error {x : Except ε α} {f : α → β} {error : ε} :
    x.map f = .error error ↔ x = .error error := by
  cases x <;> simp [Except.map]

theorem exists_ok_iff {x : Except ε α} : (∃ value, x = .ok value) ↔ ∀ error, x ≠ .error error := by
  cases x <;> simp

/-- The first of the items that fails does so with this error. -/
def FirstFailure (fails : α → ε → Prop) (items : List α) (error : ε) : Prop :=
  ∃ before item after, items = before ++ item :: after ∧
    (∀ earlier ∈ before, ∀ other, ¬ fails earlier other) ∧ fails item error

section FirstFailure

variable {fails : α → ε → Prop} {item : α} {items : List α} {error error' : ε}

theorem not_firstFailure_nil : ¬ FirstFailure fails [] error := by
  rintro ⟨before, item, after, split, _⟩
  cases before <;> cases split

theorem firstFailure_cons : FirstFailure fails (item :: items) error ↔
    fails item error ∨ (∀ other, ¬ fails item other) ∧ FirstFailure fails items error := by
  constructor
  · rintro ⟨before, failing, after, split, passed, failed⟩
    cases before with
    | nil =>
      obtain ⟨rfl, rfl⟩ := List.cons.inj split
      exact .inl failed
    | cons first before =>
      obtain ⟨rfl, rfl⟩ := List.cons.inj split
      obtain ⟨here, later⟩ := List.forall_mem_cons.mp passed
      exact .inr ⟨here, before, failing, after, rfl, later, failed⟩
  · rintro (failed | ⟨here, before, failing, after, rfl, passed, failed⟩)
    · exact ⟨[], item, items, rfl, fun _ member => absurd member List.not_mem_nil, failed⟩
    · exact ⟨item :: before, failing, after, rfl, List.forall_mem_cons.mpr ⟨here, passed⟩, failed⟩

theorem FirstFailure.exists_mem (first : FirstFailure fails items error) :
    ∃ item ∈ items, fails item error := by
  obtain ⟨before, item, after, rfl, _, failed⟩ := first
  exact ⟨item, List.mem_append_right _ List.mem_cons_self, failed⟩

theorem exists_firstFailure_iff : (∃ error, FirstFailure fails items error) ↔
    ∃ item ∈ items, ∃ error, fails item error := by
  constructor
  · rintro ⟨error, first⟩
    obtain ⟨item, member, failed⟩ := first.exists_mem
    exact ⟨item, member, error, failed⟩
  · rintro ⟨item, member, error, failed⟩
    induction member with
    | head => exact ⟨error, firstFailure_cons.mpr (.inl failed)⟩
    | @tail first rest _ ih =>
      -- The item may not be the first that fails.
      by_cases passed : ∀ other, ¬ fails first other
      · obtain ⟨error, later⟩ := ih
        exact ⟨error, firstFailure_cons.mpr (.inr ⟨passed, later⟩)⟩
      · obtain ⟨error, failed⟩ := not_forall_not.mp passed
        exact ⟨error, firstFailure_cons.mpr (.inl failed)⟩

theorem FirstFailure.unique
    (only : ∀ item error error', fails item error → fails item error' → error = error')
    (first : FirstFailure fails items error) (first' : FirstFailure fails items error') :
    error = error' := by
  induction items with
  | nil => exact absurd first not_firstFailure_nil
  | cons item items ih =>
    rcases firstFailure_cons.mp first with failed | ⟨passed, later⟩
    · rcases firstFailure_cons.mp first' with failed' | ⟨passed, _⟩
      · exact only item error error' failed failed'
      · exact absurd failed (passed error)
    · rcases firstFailure_cons.mp first' with failed' | ⟨_, later'⟩
      · exact absurd failed' (passed error')
      · exact ih later later'

end FirstFailure

end TimingExplorer
