import Mathlib.Algebra.Order.BigOperators.Group.Finset
import TimingExplorer.Proofs.Cone.Search

/-!
The search ends when finitely many pins are within reach. Every step takes an entry from the queue,
and every entry that comes in lowers the noted depth of its pin. A pin that has not been met counts
as lying one level beyond the deepest that can be noted.
-/
namespace TimingExplorer.Cone.Search

variable {near far : PinId → List PinId} {seed p q : PinId} {d n limit : Nat} {s t : Search}
  {push : Deque (PinId × Nat) → PinId × Nat → Deque (PinId × Nat)} {pins : List PinId}
  {within : Finset PinId}

/-- The noted depth of a pin, or a bound above all depths. -/
def height (limit : Nat) (s : Search) (q : PinId) : Nat := (s.best[q]?).getD (limit + 1)

/-- What is left to do: entries, and twice the depths that may still go down. -/
def work (within : Finset PinId) (limit : Nat) (s : Search) : Nat :=
  2 * ∑ q ∈ within, s.height limit q + s.queue.toList.length

theorem work_meet_le (adds : Adds push) (inside : q ∈ within) (bound : d ≤ limit) :
    (meet push d s q).work within limit ≤ s.work within limit := by
  rcases meet_cases push d s q with ⟨_, same⟩ | ⟨unknown, queue, best⟩
  · rw [same]
  · have lower : (meet push d s q).height limit q < s.height limit q := by
      simp only [height, best, if_true, Option.getD_some]
      cases noted : s.best[q]? with
      | none => simpa using bound
      | some e =>
        by_contra above
        exact unknown ⟨e, by simpa using above, noted⟩
    have others (r) : (meet push d s q).height limit r ≤ s.height limit r := by
      by_cases same : q = r
      · exact same ▸ Nat.le_of_lt lower
      · simp only [height, best, if_neg same, le_refl]
    have sum := Finset.sum_lt_sum (fun r _ => others r) ⟨q, inside, lower⟩
    have length := (adds s.queue (q, d)).length_eq
    simp only [work, queue, length, List.length_cons]
    omega

theorem work_meetAll_le (adds : Adds push) (inside : ∀ q ∈ pins, q ∈ within) (bound : d ≤ limit) :
    (pins.foldl (meet push d) s).work within limit ≤ s.work within limit := by
  induction pins generalizing s with
  | nil => exact Nat.le_refl _
  | cons q rest ih =>
    exact (ih fun r member => inside r (List.mem_cons_of_mem q member)).trans
      (work_meet_le adds (inside q List.mem_cons_self) bound)

variable (complete : ∀ {q n}, Walks near far seed q n → q ∈ within)
  (shallow : ∀ {q n}, Least near far seed q n → n < limit)

include complete shallow

theorem Valid.work_step_lt (valid : Valid near far seed s) (stepped : s.step? near far = some t) :
    t.work within limit < s.work within limit := by
  obtain ⟨p, d, rest, front, outcome⟩ := step_cases stepped
  have popped : ({ s with queue := rest } : Search).work within limit < s.work within limit := by
    simp only [work, height, front, List.length_cons]
    omega
  rcases outcome with ⟨_, rfl⟩ | ⟨current, rfl⟩
  · exact popped
  · obtain ⟨_, sound⟩ := valid.sound
    obtain ⟨e, le, noted⟩ := sound.queued (front ▸ List.mem_cons_self : (p, d) ∈ s.queue.toList)
    obtain rfl : e = d := Nat.le_antisymm le (current e noted)
    have least := valid.least_of_front front noted
    have bound := shallow least
    calc (expand near far { s with queue := rest } p e).work within limit
        ≤ ((near p).foldl (meet .pushFront e) { s with queue := rest }).work within limit :=
          work_meetAll_le adds_pushBack (fun q step => complete (least.walk.acrossNet step)) bound
      _ ≤ ({ s with queue := rest } : Search).work within limit :=
          work_meetAll_le adds_pushFront (fun q step => complete (least.walk.throughCell step))
            (Nat.le_of_lt bound)
      _ < s.work within limit := popped

theorem Valid.exists_run (valid : Valid near far seed s) :
    ∃ t, s.run? near far = some t ∧ Valid near far seed t ∧ t.queue.toList = [] := by
  induction left : s.work within limit using Nat.strong_induction_on generalizing s with
  | _ k ih =>
    rw [run?]
    cases stepped : s.step? near far with
    | none => exact ⟨s, rfl, valid, step_eq_none_iff.mp stepped⟩
    | some t =>
      have lower := valid.work_step_lt complete shallow stepped
      exact ih _ (left ▸ lower) (valid.step stepped) rfl

omit complete shallow

/-- With finitely many pins within reach the search ends and has found all distances. -/
theorem exists_run_start
    (finite : (Within (fun p q => q ∈ near p) (fun p q => q ∈ far p) seed).Finite) :
    ∃ t, (start seed).run? near far = some t ∧
      ∀ q d, t.best[q]? = some d ↔ Least near far seed q d := by
  have complete {q n} (walk : Walks near far seed q n) : q ∈ finite.toFinset :=
    finite.mem_toFinset.mpr walk.within
  have shallow {q n} (least : Least near far seed q n) := least.lt_ncard finite
  obtain ⟨t, ended, valid, done⟩ := Valid.start.exists_run complete shallow
  exact ⟨t, ended, fun _ _ => valid.best_eq_some_iff done⟩

/-- However many pins are within reach, a search that came to an end is valid and has looked at all
that it met. -/
theorem valid_of_run (ran : (start seed).run? near far = some t) :
    Valid near far seed t ∧ t.queue.toList = [] := by
  refine run?.partial_correctness near far (fun s t => Valid near far seed s →
    Valid near far seed t ∧ t.queue.toList = []) ?_ _ _ ran .start
  intro run ih s t ran valid
  cases stepped : s.step? near far with
  | none =>
    rw [stepped] at ran
    obtain rfl := Option.some.inj ran
    exact ⟨valid, step_eq_none_iff.mp stepped⟩
  | some next =>
    rw [stepped] at ran
    exact ih next t ran (valid.step stepped)

/-- The search, given up if it does not end in so many steps. -/
def runFor (near far : PinId → List PinId) : Nat → Search → Option Search
  | 0, _ => none
  | steps + 1, s =>
    match s.step? near far with
    | none => some s
    | some next => next.runFor near far steps

theorem run?_of_runFor {steps : Nat} (ran : s.runFor near far steps = some t) :
    s.run? near far = some t := by
  induction steps generalizing s with
  | zero => cases ran
  | succ steps ih =>
    rw [runFor] at ran
    rw [run?]
    cases stepped : s.step? near far with
    | none =>
      rw [stepped] at ran
      exact ran
    | some next =>
      rw [stepped] at ran
      exact ih ran

end TimingExplorer.Cone.Search
