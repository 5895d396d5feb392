import TimingExplorer.Proofs.Cone.Reach

/-!
The order in which a search goes on, down to the single neighbour that is met. Depths leave the
queue in ascending order and no depth can be improved once it has come out, so a pin is queued at
most twice, on two neighbouring levels, and expanded once.
-/
namespace TimingExplorer

namespace Cone

/-- A search under watch. Each neighbour is met in a step of its own, and what goes into the queue
and comes out of it is written down. -/
structure Watch where
  search : Search
  /-- The depth of the last entry that was taken. -/
  level : Nat := 0
  /-- The neighbours of its pin that are still to be met, first those through the cell. -/
  cell : List PinId := []
  net : List PinId := []
  /-- All entries that came into the queue, one after the other. -/
  queued : List (PinId × Nat)
  /-- All entries that were taken from it. -/
  taken : List (PinId × Nat) := []
  /-- Those whose pins were then expanded. -/
  expanded : List (PinId × Nat) := []

namespace Watch

open Search

def start (seed : PinId) : Watch := { search := .start seed, queued := [(seed, 0)] }

/-- Meets one pin. -/
def meet (w : Watch) (push : Deque (PinId × Nat) → PinId × Nat → Deque (PinId × Nat)) (depth : Nat)
    (pin : PinId) : Watch :=
  { w with
    search := w.search.meet push depth pin
    queued := if w.search.improves pin depth then w.queued ++ [(pin, depth)] else w.queued }

/-- Takes an entry, which leaves the rest of the queue. -/
def take (w : Watch) (entry : PinId × Nat) (rest : Deque (PinId × Nat)) : Watch :=
  { w with search.queue := rest, level := entry.2, taken := w.taken ++ [entry] }

/-- Sets out to meet the neighbours of a pin. -/
def expand (near far : PinId → List PinId) (w : Watch) (entry : PinId × Nat) : Watch :=
  { w with cell := near entry.1, net := far entry.1, expanded := w.expanded ++ [entry] }

/-- Meets the next neighbour, or takes the next entry when all have been met. At the end of the
search nothing happens any more. -/
def tick (near far : PinId → List PinId) (w : Watch) : Watch :=
  match w.cell, w.net with
  | pin :: rest, _ => { w with cell := rest }.meet .pushFront w.level pin
  | [], pin :: rest => { w with net := rest }.meet .pushBack (w.level + 1) pin
  | [], [] =>
    match w.search.queue.popFront? with
    | none => w
    | some (entry, rest) =>
      if (w.search.best[entry.1]?).any (· < entry.2) then w.take entry rest
      else (w.take entry rest).expand near far entry

/-- The search after so many ticks. -/
def after (near far : PinId → List PinId) (seed : PinId) : Nat → Watch
  | 0 => start seed
  | n + 1 => (after near far seed n).tick near far

/-- No neighbour is left to be met. -/
def Idle (w : Watch) : Prop := w.cell = [] ∧ w.net = []

variable {near far : PinId → List PinId} {seed p q : PinId} {d e n : Nat} {w : Watch} {s : Search}
  {push : Deque (PinId × Nat) → PinId × Nat → Deque (PinId × Nat)} {rest : Deque (PinId × Nat)}
  {entry : PinId × Nat}

/-! Under watch a search goes through the same states. -/

/-- The search when all neighbours of the pin at hand will have been met. -/
def settled (w : Watch) : Search :=
  w.net.foldl (Search.meet .pushBack (w.level + 1))
    (w.cell.foldl (Search.meet .pushFront w.level) w.search)

theorem settled_of_idle (idle : w.Idle) : w.settled = w.search := by
  obtain ⟨cell, net⟩ := idle
  rw [settled, cell, net]
  rfl

/-- A round begins with the next entry of the queue. -/
theorem settled_tick_of_idle (near far : PinId → List PinId) (idle : w.Idle) :
    (w.tick near far).settled = (w.search.step? near far).getD w.search := by
  obtain ⟨cell, net⟩ := idle
  fun_cases tick near far w with
  | case1 pin rest busy => rw [cell] at busy; cases busy
  | case2 pin rest busy _ => rw [net] at busy; cases busy
  | case3 _ _ none =>
    rw [step?, none, settled_of_idle ⟨cell, net⟩]
    rfl
  | case4 _ _ entry rest popped stale =>
    have idle : (w.take entry rest).Idle := ⟨cell, net⟩
    rw [settled_of_idle idle, step?, popped]
    exact (if_pos stale).symm
  | case5 _ _ entry rest popped current =>
    rw [step?, popped]
    exact (if_neg current).symm

/-- Within a round a tick meets one of the neighbours that are left. -/
theorem settled_tick_of_busy (near far : PinId → List PinId) (busy : ¬ w.Idle) :
    (w.tick near far).settled = w.settled ∧
      (w.tick near far).cell.length + (w.tick near far).net.length <
        w.cell.length + w.net.length := by
  fun_cases tick near far w with
  | case1 pin rest cell =>
    rw [settled, settled, cell]
    refine ⟨rfl, ?_⟩
    change rest.length + w.net.length < rest.length + 1 + w.net.length
    omega
  | case2 pin rest net cell =>
    rw [settled, settled, net]
    refine ⟨by rw [cell]; rfl, ?_⟩
    change w.cell.length + rest.length < w.cell.length + (rest.length + 1)
    omega
  | case3 net cell | case4 net cell | case5 net cell => exact absurd ⟨cell, net⟩ busy

theorem reached_settled (near far : PinId → List PinId) (seed : PinId) (n : Nat) :
    Reached near far seed (after near far seed n).settled := by
  induction n with
  | zero => exact .start
  | succ n ih =>
    rw [after]
    by_cases idle : (after near far seed n).Idle
    · rw [settled_of_idle idle] at ih
      rw [settled_tick_of_idle near far idle]
      cases stepped : (after near far seed n).search.step? near far with
      | none => exact ih
      | some t => exact ih.step stepped
    · rw [(settled_tick_of_busy near far idle).1]
      exact ih

/-- Every round comes to its end. -/
theorem exists_idle (near far : PinId → List PinId) (seed : PinId) (n : Nat) :
    ∃ m, (after near far seed m).Idle ∧
      (after near far seed m).search = (after near far seed n).settled := by
  -- By the number of neighbours that are left in the round.
  induction left : (after near far seed n).cell.length + (after near far seed n).net.length
    using Nat.strong_induction_on generalizing n with
  | _ k ih =>
    by_cases idle : (after near far seed n).Idle
    · exact ⟨n, idle, (settled_of_idle idle).symm⟩
    · obtain ⟨same, fewer⟩ := settled_tick_of_busy near far idle
      obtain ⟨m, ended, reached⟩ := ih _ (left ▸ fewer) (n + 1) rfl
      exact ⟨m, ended, reached.trans same⟩

theorem reached_iff : Reached near far seed s ↔
    ∃ n, (after near far seed n).Idle ∧ (after near far seed n).search = s := by
  constructor
  · intro reached
    induction reached with
    | start => exact ⟨0, ⟨rfl, rfl⟩, rfl⟩
    | @step s t _ stepped ih =>
      obtain ⟨n, idle, rfl⟩ := ih
      obtain ⟨m, ended, reached⟩ := exists_idle near far seed (n + 1)
      refine ⟨m, ended, reached.trans ?_⟩
      rw [after, settled_tick_of_idle near far idle, stepped, Option.getD_some]
  · rintro ⟨n, idle, rfl⟩
    exact settled_of_idle idle ▸ reached_settled near far seed n

/-! What the queue has held. -/

/-- All entries of a pin lie on the level where it is noted or the next one, and depths leave the
queue in ascending order. -/
structure Rising (w : Watch) : Prop where
  layered : Layered w.level w.search.queue
  conserved : w.queued.Perm (w.taken ++ w.search.queue.toList)
  distinct : w.queued.Nodup
  noted : ∀ {q d}, (q, d) ∈ w.queued → ∃ b, w.search.best[q]? = some b ∧ b ≤ d ∧ d ≤ b + 1
  queued : ∀ {q d}, w.search.best[q]? = some d → (q, d) ∈ w.queued
  rising : (w.taken.map Prod.snd).Pairwise (· ≤ ·)
  passed : ∀ entry ∈ w.taken, entry.2 ≤ w.level

theorem best_start (seed q : PinId) :
    (start seed).search.best[q]? = if seed = q then some 0 else none := by
  simp only [start, Search.start, Std.TreeMap.getElem?_insert, Std.compare_eq_iff_eq,
    Std.TreeMap.getElem?_emptyc]

theorem Rising.start (seed : PinId) : (start seed).Rising where
  layered := by simp [Watch.start, Search.start, Layered, Deque.toList, Deque.empty, Deque.pushBack]
  conserved := .refl _
  distinct := List.nodup_singleton _
  noted {q d} member := by
    obtain ⟨rfl, rfl⟩ := Prod.mk.inj (List.mem_singleton.mp member)
    exact ⟨0, by rw [best_start, if_pos rfl], Nat.le_refl 0, Nat.zero_le _⟩
  queued {q d} noted := by
    rw [best_start] at noted
    split at noted
    · next same =>
      obtain rfl := Option.some.inj noted
      exact List.mem_singleton.mpr (same ▸ rfl)
    · cases noted
  rising := .nil
  passed := fun _ member => absurd member List.not_mem_nil

theorem Rising.le_level (rising : w.Rising) (member : (q, d) ∈ w.queued) : d ≤ w.level + 1 := by
  rcases List.mem_append.mp (rising.conserved.mem_iff.mp member) with taken | waiting
  · exact Nat.le_succ_of_le (rising.passed _ taken)
  · exact (rising.layered.2 _ waiting).2

theorem meet_eq_self (known : w.search.Known p d) : w.meet push d p = w := by
  have improves : ¬ w.search.improves p d = true := fun h => improves_iff.mp h known
  rw [Watch.meet, if_neg improves, Search.meet, if_neg improves]

theorem queued_meet (unknown : ¬ w.search.Known p d) :
    (w.meet push d p).queued = w.queued ++ [(p, d)] := by
  rw [Watch.meet, if_pos (improves_iff.mpr unknown)]

theorem queue_meet (unknown : ¬ w.search.Known p d) :
    (w.meet push d p).search.queue = push w.search.queue (p, d) := by
  rw [Watch.meet, Search.meet, if_pos (improves_iff.mpr unknown)]

theorem best_meet (unknown : ¬ w.search.Known p d) (q : PinId) :
    (w.meet push d p).search.best[q]? = if p = q then some d else w.search.best[q]? := by
  simp only [Watch.meet, Search.meet, improves_iff.mpr unknown, if_true,
    Std.TreeMap.getElem?_insert, Std.compare_eq_iff_eq]

/-- An entry that is new to the queue lies below all that its pin has had. -/
theorem Rising.lt_of_queued (rising : w.Rising) (unknown : ¬ w.search.Known p d)
    (member : (p, e) ∈ w.queued) : d < e := by
  obtain ⟨b, noted, le, _⟩ := rising.noted member
  by_contra above
  exact unknown ⟨b, by omega, noted⟩

theorem Rising.meet (rising : w.Rising) (adds : Adds push) (above : w.level ≤ d)
    (layered : Layered w.level (push w.search.queue (p, d))) : (w.meet push d p).Rising := by
  by_cases known : w.search.Known p d
  · rw [meet_eq_self known]
    exact rising
  · -- A depth that is an improvement lies below every entry that the pin has had, so it is new,
    -- and as the queue spans two levels the older entries lie just one level deeper.
    have fresh : (p, d) ∉ w.queued := fun member =>
      Nat.lt_irrefl d (rising.lt_of_queued known member)
    have member {entry} : entry ∈ (w.meet push d p).queued ↔ entry ∈ w.queued ∨ entry = (p, d) := by
      rw [queued_meet known, List.mem_append, List.mem_singleton]
    refine ⟨?_, ?_, ?_, fun {q e} came => ?_, fun {q e} noted => ?_, rising.rising, rising.passed⟩
    · rw [queue_meet known]
      exact layered
    · rw [queued_meet known, queue_meet known]
      refine (List.perm_append_singleton _ _).trans ((rising.conserved.cons (p, d)).trans ?_)
      exact List.perm_middle.symm.trans ((adds w.search.queue (p, d)).symm.append_left w.taken)
    · rw [queued_meet known]
      exact rising.distinct.append (List.nodup_singleton _) (List.disjoint_singleton.mpr fresh)
    · rw [best_meet known]
      rcases member.mp came with old | new
      · split
        · next same =>
          subst same
          have lower := rising.lt_of_queued known old
          have upper := rising.le_level old
          exact ⟨d, rfl, Nat.le_of_lt lower, by omega⟩
        · exact rising.noted old
      · obtain ⟨rfl, rfl⟩ := Prod.mk.inj new
        exact ⟨e, if_pos rfl, Nat.le_refl e, Nat.le_succ e⟩
    · rw [best_meet known] at noted
      split at noted
      · next same =>
        obtain rfl := Option.some.inj noted
        exact member.mpr (.inr (same ▸ rfl))
      · exact member.mpr (.inl (rising.queued noted))

theorem Rising.level_le (rising : w.Rising) (front : w.search.queue.toList = entry :: rest.toList) :
    w.level ≤ entry.2 :=
  (rising.layered.2 entry (front ▸ List.mem_cons_self)).1

theorem Rising.take (rising : w.Rising) (front : w.search.queue.toList = entry :: rest.toList) :
    (w.take entry rest).Rising where
  layered := rising.layered.tail front
  conserved := by
    have conserved := rising.conserved
    rw [front, List.append_cons] at conserved
    exact conserved
  distinct := rising.distinct
  noted := rising.noted
  queued := rising.queued
  rising := by
    simp only [Watch.take, List.map_append, List.pairwise_append, List.map_cons, List.map_nil,
      List.mem_map, List.mem_singleton]
    refine ⟨rising.rising, List.pairwise_singleton _ _, ?_⟩
    rintro _ ⟨earlier, member, rfl⟩ _ rfl
    exact (rising.passed earlier member).trans (rising.level_le front)
  passed := by
    intro earlier member
    rcases List.mem_append.mp member with old | new
    · exact (rising.passed earlier old).trans (rising.level_le front)
    · exact (List.mem_singleton.mp new) ▸ Nat.le_refl _

/-! What was expanded. -/

/-- The invariant of a search under watch: an entry that was taken holds the depth that is noted now
just if its pin was expanded then. -/
structure InOrder (w : Watch) : Prop extends Rising w where
  expanded_iff : ∀ {q d}, (q, d) ∈ w.expanded ↔ (q, d) ∈ w.taken ∧ w.search.best[q]? = some d
  once : w.expanded.Nodup

theorem InOrder.start (seed : PinId) : (start seed).InOrder where
  toRising := .start seed
  expanded_iff := by simp [Watch.start]
  once := List.nodup_nil

theorem InOrder.meet (order : w.InOrder) (adds : Adds push) (above : w.level ≤ d)
    (layered : Layered w.level (push w.search.queue (p, d))) : (w.meet push d p).InOrder where
  toRising := order.toRising.meet adds above layered
  expanded_iff {q e} := by
    refine order.expanded_iff.trans (and_congr_right fun taken => ?_)
    by_cases known : w.search.Known p d
    · rw [meet_eq_self known]
    · rw [best_meet known]
      split
      · next same =>
        -- What has been taken lies no deeper than the pins that are still met.
        subst same
        have passed : e ≤ w.level := order.passed _ taken
        have lower := order.lt_of_queued known
          (order.conserved.mem_iff.mpr (List.mem_append_left _ taken))
        omega
      · rfl
  once := order.once

theorem InOrder.take_stale (order : w.InOrder)
    (front : w.search.queue.toList = entry :: rest.toList)
    (stale : (w.search.best[entry.1]?).any (· < entry.2) = true) :
    (w.take entry rest).InOrder where
  toRising := order.toRising.take front
  expanded_iff {q e} := by
    refine order.expanded_iff.trans (and_congr_left fun noted => ?_)
    have other : (q, e) ≠ entry := by
      rintro rfl
      rw [show w.search.best[q]? = some e from noted] at stale
      simp at stale
    simp [Watch.take, other]
  once := order.once

/-- The depth of an entry that is not stale is the noted one. -/
theorem Rising.noted_of_current (rising : w.Rising)
    (front : w.search.queue.toList = entry :: rest.toList)
    (current : ¬ (w.search.best[entry.1]?).any (· < entry.2) = true) :
    w.search.best[entry.1]? = some entry.2 := by
  have member : entry ∈ w.queued :=
    rising.conserved.mem_iff.mpr (List.mem_append_right _ (front ▸ List.mem_cons_self))
  obtain ⟨b, noted, le, _⟩ := rising.noted member
  simp only [noted, Option.any_some, decide_eq_true_eq, Nat.not_lt] at current
  rw [noted, Nat.le_antisymm le current]

theorem Rising.not_taken (rising : w.Rising)
    (front : w.search.queue.toList = entry :: rest.toList) :
    entry ∉ w.taken := by
  intro taken
  have distinct := rising.conserved.nodup_iff.mp rising.distinct
  rw [front] at distinct
  exact (List.nodup_append.mp distinct).2.2 entry taken entry List.mem_cons_self rfl

theorem InOrder.take_current (order : w.InOrder) (near far : PinId → List PinId)
    (front : w.search.queue.toList = entry :: rest.toList)
    (current : ¬ (w.search.best[entry.1]?).any (· < entry.2) = true) :
    ((w.take entry rest).expand near far entry).InOrder := by
  have noted := order.noted_of_current front current
  have rising := order.toRising.take front
  refine ⟨⟨rising.layered, rising.conserved, rising.distinct, rising.noted, rising.queued,
    rising.rising, rising.passed⟩, fun {q e} => ?_, ?_⟩
  · simp only [Watch.expand, Watch.take, List.mem_append, List.mem_singleton, order.expanded_iff,
      or_and_right]
    refine or_congr_right ⟨?_, And.left⟩
    rintro rfl
    exact ⟨rfl, noted⟩
  · refine order.once.append (List.nodup_singleton _) (List.disjoint_singleton.mpr fun before => ?_)
    exact order.not_taken front (order.expanded_iff.mp before).1

/-- Which neighbours are still to be met has no part in the invariant. -/
theorem InOrder.withNeighbours (order : w.InOrder) (cell net : List PinId) :
    ({ w with cell, net } : Watch).InOrder :=
  ⟨⟨order.layered, order.conserved, order.distinct, order.noted, order.queued, order.rising,
    order.passed⟩, order.expanded_iff, order.once⟩

theorem InOrder.tick (order : w.InOrder) (near far : PinId → List PinId) :
    (w.tick near far).InOrder := by
  fun_cases Watch.tick near far w with
  | case1 pin rest cell =>
    exact (order.withNeighbours rest w.net).meet adds_pushFront (Nat.le_refl _)
      (order.layered.pushFront pin)
  | case2 pin rest net cell =>
    exact (order.withNeighbours w.cell rest).meet adds_pushBack (Nat.le_succ _)
      (order.layered.pushBack pin)
  | case3 => exact order
  | case4 net cell entry rest popped stale =>
    exact order.take_stale (Deque.toList_of_popFront? popped) stale
  | case5 net cell entry rest popped current =>
    exact order.take_current near far (Deque.toList_of_popFront? popped) current

theorem inOrder_after (near far : PinId → List PinId) (seed : PinId) (n : Nat) :
    (after near far seed n).InOrder := by
  induction n with
  | zero => exact .start seed
  | succ n ih => exact ih.tick near far

/-! What the invariant says of one pin. -/

theorem mem_expanded_tick (near far : PinId → List PinId) (before : entry ∈ w.expanded) :
    entry ∈ (w.tick near far).expanded := by
  fun_cases Watch.tick near far w with
  | case5 => exact List.mem_append_left _ before
  | _ => exact before

theorem mem_expanded_after (before : entry ∈ (after near far seed n).expanded) (k : Nat) :
    entry ∈ (after near far seed (n + k)).expanded := by
  induction k with
  | zero => exact before
  | succ k ih => exact mem_expanded_tick near far ih

/-- A pin is expanded when it comes to the front at its noted depth. -/
theorem mem_expanded_of_front (near far : PinId → List PinId) (idle : w.Idle)
    {others : List (PinId × Nat)} (front : w.search.queue.toList = (q, d) :: others)
    (noted : w.search.best[q]? = some d) : (q, d) ∈ (w.tick near far).expanded := by
  obtain ⟨cell, net⟩ := idle
  fun_cases Watch.tick near far w with
  | case1 pin rest busy => rw [cell] at busy; cases busy
  | case2 pin rest busy _ => rw [net] at busy; cases busy
  | case3 _ _ none =>
    rw [(Deque.popFront?_eq_none_iff _).mp none] at front
    cases front
  | case4 _ _ entry rest popped stale =>
    rw [Deque.toList_of_popFront? popped] at front
    obtain rfl := (List.cons.inj front).1
    simp [noted] at stale
  | case5 _ _ entry rest popped current =>
    rw [Deque.toList_of_popFront? popped] at front
    obtain rfl := (List.cons.inj front).1
    exact List.mem_append_right _ (List.mem_singleton_self _)

theorem best_of_front {others : List (PinId × Nat)} (idle : (after near far seed n).Idle)
    (front : (after near far seed n).search.queue.toList = (q, d) :: others)
    (noted : (after near far seed n).search.best[q]? = some d) (k : Nat) :
    (after near far seed (n + k)).search.best[q]? = some d := by
  cases k with
  | zero => exact noted
  | succ k =>
    have expanded : (q, d) ∈ (after near far seed (n + 1)).expanded :=
      mem_expanded_of_front near far idle front noted
    have later := mem_expanded_after expanded k
    rw [Nat.add_right_comm] at later
    exact ((inOrder_after near far seed (n + (k + 1))).expanded_iff.mp later).2

/-- The entries of one pin in a list without repetitions, if they can only be these. -/
theorem countP_le_of_subset {entries : List (PinId × Nat)} (allowed : List (PinId × Nat))
    (distinct : entries.Nodup) (inside : ∀ d, (q, d) ∈ entries → (q, d) ∈ allowed) :
    entries.countP (·.1 = q) ≤ allowed.length := by
  rw [List.countP_eq_length_filter]
  refine ((distinct.filter _).subperm fun entry member => ?_).length_le
  obtain ⟨listed, same⟩ := List.mem_filter.mp member
  obtain rfl := of_decide_eq_true same
  exact inside entry.2 listed

theorem Rising.countP_queued_le (rising : w.Rising) (q : PinId) :
    w.queued.countP (·.1 = q) ≤ 2 := by
  let levels := w.search.best[q]?.toList.flatMap fun b => [(q, b), (q, b + 1)]
  have few : levels.length ≤ 2 := by cases w.search.best[q]? <;> simp [levels]
  refine (countP_le_of_subset levels rising.distinct fun d member => ?_).trans few
  obtain ⟨b, noted, lower, upper⟩ := rising.noted member
  have either : d = b ∨ d = b + 1 := by omega
  simpa [levels, noted] using either

theorem InOrder.countP_expanded_le (order : w.InOrder) (q : PinId) :
    w.expanded.countP (·.1 = q) ≤ 1 := by
  let level := w.search.best[q]?.toList.map fun b => (q, b)
  have one : level.length ≤ 1 := by cases w.search.best[q]? <;> simp [level]
  refine (countP_le_of_subset level order.once fun d member => ?_).trans one
  simp [level, (order.expanded_iff.mp member).2]

/-- A pin whose noted depth has left the queue was expanded. -/
theorem InOrder.countP_expanded_eq (order : w.InOrder) (noted : w.search.best[q]? = some d)
    (left : (q, d) ∉ w.search.queue.toList) : w.expanded.countP (·.1 = q) = 1 := by
  refine Nat.le_antisymm (order.countP_expanded_le q) ?_
  have taken : (q, d) ∈ w.taken :=
    (List.mem_append.mp (order.conserved.mem_iff.mp (order.queued noted))).resolve_right left
  exact List.countP_pos_iff.mpr ⟨(q, d), order.expanded_iff.mpr ⟨taken, noted⟩, by simp⟩

end Watch

end Cone

namespace TimingEngine

open Cone

/-- The search for a cone, after so many ticks of its watch. -/
def watch (engine : TimingEngine) (direction : Direction) (seed : PinId) : Nat → Watch :=
  Watch.after (engine.cellNeighbors direction) (engine.netNeighbors direction) seed

/-- In which order a search goes on. Between rounds the states under watch are those of the search.
At any time, in the middle of a round too, the queue rises from front to back by one level at most,
and no entry lies above the noted depth of its pin. Depths are taken in ascending order, and the
depth of a pin that is at the front with its noted depth stays for good. So no pin is queued more
than twice, and each is expanded once, when its noted depth leaves the queue. -/
theorem search_in_order (engine : TimingEngine) (direction : Direction) (seed : PinId) :
    (∀ s, engine.Searching direction seed s ↔
      ∃ n, (engine.watch direction seed n).Idle ∧ (engine.watch direction seed n).search = s) ∧
    ∀ n, let w := engine.watch direction seed n
      (w.search.queue.toList.map Prod.snd).Pairwise (· ≤ ·) ∧
      (∀ entry ∈ w.search.queue.toList, ∀ other ∈ w.search.queue.toList, other.2 ≤ entry.2 + 1) ∧
      (∀ q d, (q, d) ∈ w.search.queue.toList → ∃ best ≤ d, w.search.best[q]? = some best) ∧
      w.queued.Perm (w.taken ++ w.search.queue.toList) ∧
      (w.taken.map Prod.snd).Pairwise (· ≤ ·) ∧
      (∀ q d rest, w.Idle → w.search.queue.toList = (q, d) :: rest →
        w.search.best[q]? = some d →
        ∀ k, (engine.watch direction seed (n + k)).search.best[q]? = some d) ∧
      (∀ q, w.queued.countP (·.1 = q) ≤ 2) ∧
      (∀ q, w.expanded.countP (·.1 = q) ≤ 1) ∧
      ∀ q d, (q, d) ∈ w.queued → ∃ best ≤ d, w.search.best[q]? = some best ∧
        ((q, best) ∉ w.search.queue.toList → w.expanded.countP (·.1 = q) = 1) := by
  refine ⟨fun s => Watch.reached_iff, fun n => ?_⟩
  have order : (engine.watch direction seed n).InOrder := Watch.inOrder_after _ _ seed n
  obtain ⟨sorted, range⟩ := order.layered
  refine ⟨sorted, fun entry member other member' => ?_, fun q d waiting => ?_, order.conserved,
    order.rising, fun q d rest idle front noted => Watch.best_of_front idle front noted,
    order.countP_queued_le, order.countP_expanded_le, fun q d came => ?_⟩
  · have lower := (range entry member).1
    have upper := (range other member').2
    omega
  · have came := order.conserved.mem_iff.mpr (List.mem_append_right _ waiting)
    obtain ⟨best, noted, le, _⟩ := order.noted came
    exact ⟨best, le, noted⟩
  · obtain ⟨best, noted, le, _⟩ := order.noted came
    exact ⟨best, le, noted, order.countP_expanded_eq noted⟩

end TimingEngine

/-- The net of a driver leads to a load that a detour through the cell reaches on the driver's own
level. -/
def Design.detour : Design where
  instances := .ofList [{ name := "u", master := "M", pins := [⟨0⟩, ⟨1⟩, ⟨2⟩]
                          arcs := [(⟨0⟩, ⟨1⟩), (⟨1⟩, ⟨2⟩)] }]
  pins := .ofList [
    { name := "Z", inst := some ⟨0⟩, terminal := .ofInstance ⟨0⟩, direction := .output
      net := some ⟨0⟩ },
    { name := "M", inst := some ⟨0⟩, terminal := .ofInstance ⟨1⟩, direction := .inout },
    { name := "A", inst := some ⟨0⟩, terminal := .ofInstance ⟨2⟩, direction := .input
      net := some ⟨0⟩ }]
  nets := .ofList [{ name := "n", pins := [⟨0⟩, ⟨2⟩] }]

/-- The load is met across the net first and then again, one level higher, through the cell. -/
theorem TimingEngine.search_in_order_detour :
    let w := Design.detour.engine.watch .forward ⟨0⟩
    (w 5).queued = [(⟨0⟩, 0), (⟨1⟩, 0), (⟨2⟩, 1), (⟨2⟩, 0)] ∧ (w 5).Idle ∧
      (w 5).search.queue.toList = [(⟨2⟩, 0), (⟨2⟩, 1)] ∧
      (w 5).search.best[(⟨2⟩ : PinId)]? = some 0 ∧
      (∀ k, (w (5 + k)).search.best[(⟨2⟩ : PinId)]? = some 0) ∧
      (w 7).search.queue.toList = [] ∧ (w 7).expanded.countP (·.1 = ⟨2⟩) = 1 := by
  intro w
  have front : (w 5).search.queue.toList = [(⟨2⟩, 0), (⟨2⟩, 1)] := rfl
  have noted : (w 5).search.best[(⟨2⟩ : PinId)]? = some 0 := rfl
  have done : (w 7).search.queue.toList = [] := rfl
  have came : (⟨2⟩, 0) ∈ (w 7).queued := by decide
  obtain ⟨_, order⟩ := search_in_order Design.detour.engine .forward ⟨0⟩
  obtain ⟨_, _, _, _, _, stays, _⟩ := order 5
  obtain ⟨_, _, _, _, _, _, _, _, expanded⟩ := order 7
  obtain ⟨_, _, _, once⟩ := expanded ⟨2⟩ 0 came
  refine ⟨rfl, ⟨rfl, rfl⟩, front, noted, stays ⟨2⟩ 0 _ ⟨rfl, rfl⟩ front noted, done, once ?_⟩
  rw [show (Design.detour.engine.watch .forward ⟨0⟩ 7).search.queue.toList = [] from done]
  exact List.not_mem_nil

end TimingExplorer
