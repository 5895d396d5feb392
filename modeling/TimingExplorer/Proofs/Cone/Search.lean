import TimingExplorer.Cone.Traversal
import TimingExplorer.Proofs.Cone.Walk

/-!
The search as a transition system. The queue always lies within two levels, least depth first, and
whatever a walk reaches is either known at that depth already or lies behind a pin in the queue. So
a pin that leaves the queue at its noted depth leaves it at its distance, and when the queue is
empty all noted depths are distances.
-/
namespace TimingExplorer.Cone.Search

variable {near far : PinId → List PinId} {seed p q : PinId} {d n level limit : Nat} {s t u : Search}
  {push : Deque (PinId × Nat) → PinId × Nat → Deque (PinId × Nat)} {pins : List PinId}

/-- Walks along the neighbours that a search is given. -/
abbrev Walks (near far : PinId → List PinId) : PinId → PinId → Nat → Prop :=
  Walk (fun p q => q ∈ near p) (fun p q => q ∈ far p)

/-- Distances along the neighbours that a search is given. -/
abbrev Least (near far : PinId → List PinId) : PinId → PinId → Nat → Prop :=
  Distance (fun p q => q ∈ near p) (fun p q => q ∈ far p)

/-- The states that a search comes through. -/
inductive Reached (near far : PinId → List PinId) (seed : PinId) : Search → Prop where
  | start : Reached near far seed (start seed)
  | step {s t : Search} :
      Reached near far seed s → s.step? near far = some t → Reached near far seed t

/-- A pin has been met at this depth or a lesser one. -/
def Known (s : Search) (q : PinId) (d : Nat) : Prop := ∃ e ≤ d, s.best[q]? = some e

theorem Known.mono (known : s.Known q d) (bound : d ≤ n) : s.Known q n := by
  obtain ⟨e, le, noted⟩ := known
  exact ⟨e, le.trans bound, noted⟩

/-- All neighbours of a pin at this depth are known where they belong. -/
def Expanded (near far : PinId → List PinId) (s : Search) (p : PinId) (d : Nat) : Prop :=
  (∀ q ∈ near p, s.Known q d) ∧ ∀ q ∈ far p, s.Known q (d + 1)

/-- The queue rises and stays within one level and the next. -/
def Layered (level : Nat) (queue : Deque (PinId × Nat)) : Prop :=
  (queue.toList.map Prod.snd).Pairwise (· ≤ ·) ∧
    ∀ entry ∈ queue.toList, level ≤ entry.2 ∧ entry.2 ≤ level + 1

theorem Layered.pushFront {queue : Deque (PinId × Nat)} (layered : Layered level queue)
    (q : PinId) : Layered level (queue.pushFront (q, level)) := by
  obtain ⟨sorted, range⟩ := layered
  refine ⟨?_, ?_⟩
  · simp only [Deque.toList_pushFront, List.map_cons, List.pairwise_cons, List.mem_map]
    refine ⟨?_, sorted⟩
    rintro _ ⟨entry, member, rfl⟩
    exact (range entry member).1
  · simp only [Deque.toList_pushFront, List.mem_cons]
    rintro entry (rfl | member)
    · exact ⟨Nat.le_refl _, Nat.le_succ _⟩
    · exact range entry member

theorem Layered.pushBack {queue : Deque (PinId × Nat)} (layered : Layered level queue)
    (q : PinId) : Layered level (queue.pushBack (q, level + 1)) := by
  obtain ⟨sorted, range⟩ := layered
  refine ⟨?_, ?_⟩
  · simp only [Deque.toList_pushBack, List.map_append, List.pairwise_append, List.mem_map,
      List.map_cons, List.map_nil, List.mem_singleton]
    refine ⟨sorted, List.pairwise_singleton _ _, ?_⟩
    rintro _ ⟨entry, member, rfl⟩ _ rfl
    exact (range entry member).2
  · simp only [Deque.toList_pushBack, List.mem_append, List.mem_singleton]
    rintro entry (member | rfl)
    · exact range entry member
    · exact ⟨Nat.le_succ _, Nat.le_refl _⟩

/-- Without its first entry the queue starts at that entry's level. -/
theorem Layered.tail {queue rest : Deque (PinId × Nat)} (layered : Layered level queue)
    (front : queue.toList = (p, d) :: rest.toList) : Layered d rest := by
  obtain ⟨sorted, range⟩ := layered
  simp only [front, List.map_cons, List.pairwise_cons, List.mem_map] at sorted
  refine ⟨sorted.2, fun entry member => ⟨sorted.1 _ ⟨entry, member, rfl⟩, ?_⟩⟩
  have first := range (p, d) (front ▸ List.mem_cons_self)
  have other := range entry (front ▸ List.mem_cons_of_mem _ member)
  simp only at first
  omega

theorem improves_iff : s.improves p d = true ↔ ¬ s.Known p d := by
  simp only [improves, Known]
  cases s.best[p]? <;> simp

/-- Meeting a pin changes nothing, or it notes and queues that pin alone. -/
theorem meet_cases (push : Deque (PinId × Nat) → PinId × Nat → Deque (PinId × Nat)) (d : Nat)
    (s : Search) (p : PinId) :
    (s.Known p d ∧ meet push d s p = s) ∨
      (¬ s.Known p d ∧ (meet push d s p).queue = push s.queue (p, d) ∧
        ∀ q, (meet push d s p).best[q]? = if p = q then some d else s.best[q]?) := by
  by_cases known : s.Known p d
  · refine .inl ⟨known, ?_⟩
    have improves : ¬ s.improves p d = true := fun h => improves_iff.mp h known
    rw [meet, if_neg improves]
  · refine .inr ⟨known, ?_⟩
    simp only [meet, improves_iff.mpr known, if_true, Std.TreeMap.getElem?_insert,
      Std.compare_eq_iff_eq, true_and, implies_true]

/-- One state comes from another by meeting pins: depths only go down, the queue only grows, and a
new depth is queued. -/
structure Follows (s t : Search) : Prop where
  known : ∀ {q d}, s.Known q d → t.Known q d
  queue_subset : ∀ entry ∈ s.queue.toList, entry ∈ t.queue.toList
  queued_of_new : ∀ {q d}, t.best[q]? = some d → s.best[q]? = some d ∨ (q, d) ∈ t.queue.toList

theorem Follows.refl (s : Search) : Follows s s :=
  ⟨id, fun _ member => member, .inl⟩

theorem Follows.trans (first : Follows s t) (second : Follows t u) : Follows s u where
  known := second.known ∘ first.known
  queue_subset entry member := second.queue_subset entry (first.queue_subset entry member)
  queued_of_new noted := by
    rcases second.queued_of_new noted with earlier | member
    · rcases first.queued_of_new earlier with known | member
      · exact .inl known
      · exact .inr (second.queue_subset _ member)
    · exact .inr member

theorem Expanded.follows (expanded : s.Expanded near far p d) (follows : Follows s t) :
    t.Expanded near far p d :=
  ⟨fun q step => follows.known (expanded.1 q step), fun q step => follows.known (expanded.2 q step)⟩

/-- A way of queueing that adds one entry and loses none. -/
def Adds (push : Deque (PinId × Nat) → PinId × Nat → Deque (PinId × Nat)) : Prop :=
  ∀ queue entry, (push queue entry).toList.Perm (entry :: queue.toList)

theorem adds_pushFront : Adds .pushFront := fun _ _ => .refl _

theorem adds_pushBack : Adds .pushBack := fun queue entry => by
  simpa only [Deque.toList_pushBack] using List.perm_append_singleton entry queue.toList

theorem meet_follows (adds : Adds push) : Follows s (meet push d s p) := by
  rcases meet_cases push d s p with ⟨_, same⟩ | ⟨unknown, queue, best⟩
  · rw [same]
    exact .refl s
  · have member (entry) : entry ∈ (meet push d s p).queue.toList ↔
        entry = (p, d) ∨ entry ∈ s.queue.toList := by
      rw [queue, (adds _ _).mem_iff, List.mem_cons]
    refine ⟨?_, fun entry old => (member entry).mpr (.inr old), ?_⟩
    · rintro q n ⟨e, le, noted⟩
      by_cases same : p = q
      · subst same
        refine ⟨d, ?_, by rw [best, if_pos rfl]⟩
        by_contra above
        exact unknown ⟨e, by omega, noted⟩
      · exact ⟨e, le, by rw [best, if_neg same, noted]⟩
    · intro q n noted
      rw [best] at noted
      split at noted
      · next same =>
        obtain rfl := Option.some.inj noted
        exact .inr ((member _).mpr (.inl (same ▸ rfl)))
      · exact .inl noted

theorem known_meet : (meet push d s p).Known p d := by
  rcases meet_cases push d s p with ⟨known, same⟩ | ⟨_, _, best⟩
  · exact same.symm ▸ known
  · exact ⟨d, Nat.le_refl d, by rw [best, if_pos rfl]⟩

theorem meetAll_follows (adds : Adds push) : Follows s (pins.foldl (meet push d) s) := by
  induction pins generalizing s with
  | nil => exact .refl s
  | cons p rest ih => exact (meet_follows adds).trans ih

theorem known_meetAll (adds : Adds push) (member : q ∈ pins) :
    (pins.foldl (meet push d) s).Known q d := by
  induction pins generalizing s with
  | nil => cases member
  | cons p rest ih =>
    rw [List.foldl_cons]
    rcases List.mem_cons.mp member with rfl | later
    · exact (meetAll_follows adds).known known_meet
    · exact ih later

/-- What also holds while the neighbours of a pin are being met: depths are those of walks, the
queue lists known pins within two levels, and no entry lies more than a level beyond some distance.
-/
structure Sound (near far : PinId → List PinId) (seed : PinId) (level : Nat) (s : Search) :
    Prop where
  walked : ∀ {q d}, s.best[q]? = some d → Walks near far seed q d
  queued : ∀ {q d}, (q, d) ∈ s.queue.toList → s.Known q d
  layered : Layered level s.queue
  bounded : ∀ entry ∈ s.queue.toList, ∃ p n, Least near far seed p n ∧ entry.2 ≤ n + 1

/-- The invariant of the search. A pin that is not in the queue at its noted depth has been
expanded at that depth, and it is the pin's distance. -/
structure Valid (near far : PinId → List PinId) (seed : PinId) (s : Search) : Prop where
  seeded : s.Known seed 0
  sound : ∃ level, Sound near far seed level s
  closed : ∀ {q d}, s.best[q]? = some d →
    (q, d) ∈ s.queue.toList ∨ (s.Expanded near far q d ∧ Least near far seed q d)

theorem Sound.meet (sound : Sound near far seed level s) (adds : Adds push)
    (layered : ∀ queue, Layered level queue → Layered level (push queue (q, d)))
    (walk : Walks near far seed q d) (least : Least near far seed p n) (bound : d ≤ n + 1) :
    Sound near far seed level (meet push d s q) := by
  rcases meet_cases push d s q with ⟨_, same⟩ | ⟨_, queue, best⟩
  · rw [same]
    exact sound
  · have follows : Follows s (Search.meet push d s q) := meet_follows adds
    have member {entry} (queued : entry ∈ (Search.meet push d s q).queue.toList) :
        entry = (q, d) ∨ entry ∈ s.queue.toList := by
      rwa [queue, (adds _ _).mem_iff, List.mem_cons] at queued
    refine ⟨?_, ?_, queue ▸ layered _ sound.layered, ?_⟩
    · intro r e noted
      rw [best] at noted
      split at noted
      · next same =>
        obtain rfl := Option.some.inj noted
        exact same ▸ walk
      · exact sound.walked noted
    · intro r e queued
      rcases member queued with new | old
      · obtain ⟨rfl, rfl⟩ := Prod.mk.inj new
        exact known_meet
      · exact follows.known (sound.queued old)
    · intro entry queued
      rcases member queued with rfl | old
      · exact ⟨p, n, least, bound⟩
      · exact sound.bounded entry old

theorem Sound.meetAll (sound : Sound near far seed level s) (adds : Adds push)
    (layered : ∀ q queue, Layered level queue → Layered level (push queue (q, d)))
    (walks : ∀ q ∈ pins, Walks near far seed q d) (least : Least near far seed p n)
    (bound : d ≤ n + 1) : Sound near far seed level (pins.foldl (Search.meet push d) s) := by
  induction pins generalizing s with
  | nil => exact sound
  | cons q rest ih =>
    exact ih (sound.meet adds (layered q) (walks q List.mem_cons_self) least bound)
      fun r member => walks r (List.mem_cons_of_mem q member)

theorem expand_follows : Follows s (s.expand near far p d) :=
  (meetAll_follows adds_pushFront).trans (meetAll_follows adds_pushBack)

theorem expanded_expand : (s.expand near far p d).Expanded near far p d :=
  ⟨fun _ step => (meetAll_follows adds_pushBack).known (known_meetAll adds_pushFront step),
    fun _ step => known_meetAll adds_pushBack step⟩

theorem Sound.expand (sound : Sound near far seed d s) (least : Least near far seed p d) :
    Sound near far seed d (s.expand near far p d) := by
  have nearby : Sound near far seed d ((near p).foldl (Search.meet .pushFront d) s) :=
    sound.meetAll adds_pushFront (fun q _ => (·.pushFront q))
      (fun q step => least.walk.throughCell step) least (Nat.le_succ d)
  exact nearby.meetAll adds_pushBack (fun q _ => (·.pushBack q))
    (fun q step => least.walk.acrossNet step) least (Nat.le_refl _)

/-- A step takes the first entry. It drops an entry whose pin is known at a lesser depth and expands
the pin of any other. -/
theorem step_cases (stepped : s.step? near far = some t) :
    ∃ p d rest, s.queue.toList = (p, d) :: rest.toList ∧
      ((∃ e < d, s.best[p]? = some e) ∧ t = { s with queue := rest } ∨
        (∀ e, s.best[p]? = some e → d ≤ e) ∧ t = expand near far { s with queue := rest } p d) := by
  obtain ⟨⟨⟨p, d⟩, rest⟩, popped, rfl⟩ := Option.map_eq_some_iff.mp stepped
  refine ⟨p, d, rest, Deque.toList_of_popFront? popped, ?_⟩
  cases noted : s.best[p]? with
  | none => exact .inr ⟨by simp, by simp [noted]⟩
  | some e =>
    by_cases stale : e < d
    · exact .inl ⟨⟨e, stale, rfl⟩, by simp [noted, stale]⟩
    · exact .inr ⟨by simpa using stale, by simp [noted, stale]⟩

theorem step_eq_none_iff : s.step? near far = none ↔ s.queue.toList = [] := by
  rw [step?, Option.map_eq_none_iff, Deque.popFront?_eq_none_iff]

theorem Valid.start : Valid near far seed (start seed) := by
  have best (q) : (Search.start seed).best[q]? = if seed = q then some 0 else none := by
    simp only [Search.start, Std.TreeMap.getElem?_insert, Std.compare_eq_iff_eq,
      Std.TreeMap.getElem?_emptyc]
  have queue : (Search.start seed).queue.toList = [(seed, 0)] := rfl
  have seeded : (Search.start seed).Known seed 0 := ⟨0, Nat.le_refl 0, by rw [best, if_pos rfl]⟩
  have noted {q d} (known : (Search.start seed).best[q]? = some d) : q = seed ∧ d = 0 := by
    rw [best] at known
    split at known
    · next same => exact ⟨same.symm, (Option.some.inj known).symm⟩
    · cases known
  refine ⟨seeded, ⟨0, ?_, ?_, ?_, ?_⟩, ?_⟩
  · intro q d known
    obtain ⟨rfl, rfl⟩ := noted known
    exact .start
  · intro q d queued
    obtain ⟨rfl, rfl⟩ := Prod.mk.inj (List.mem_singleton.mp (queue ▸ queued))
    exact seeded
  · simp [Layered, queue]
  · intro entry queued
    obtain rfl := List.mem_singleton.mp (queue ▸ queued)
    exact ⟨seed, 0, distance_seed, Nat.zero_le _⟩
  · intro q d known
    obtain ⟨rfl, rfl⟩ := noted known
    exact .inl (queue ▸ List.mem_singleton_self _)

/-- Where a walk leads is known at the walk's depth, unless some pin that is not deeper waits. -/
theorem Valid.frontier (valid : Valid near far seed s) (walk : Walks near far seed q n) :
    s.Known q n ∨ ∃ entry ∈ s.queue.toList, entry.2 ≤ n := by
  induction walk with
  | start => exact .inl valid.seeded
  | throughCell _ step ih =>
    rcases ih with ⟨e, le, noted⟩ | waiting
    · rcases valid.closed noted with queued | ⟨expanded, _⟩
      · exact .inr ⟨_, queued, le⟩
      · exact .inl ((expanded.1 _ step).mono le)
    · exact .inr waiting
  | acrossNet _ step ih =>
    rcases ih with ⟨e, le, noted⟩ | ⟨entry, queued, le⟩
    · rcases valid.closed noted with queued | ⟨expanded, _⟩
      · exact .inr ⟨_, queued, Nat.le_succ_of_le le⟩
      · exact .inl ((expanded.2 _ step).mono (Nat.succ_le_succ le))
    · exact .inr ⟨entry, queued, Nat.le_succ_of_le le⟩

/-- A pin that comes to the front of the queue at its noted depth is noted at its distance. -/
theorem Valid.least_of_front {rest : List (PinId × Nat)} (valid : Valid near far seed s)
    (front : s.queue.toList = (p, d) :: rest) (noted : s.best[p]? = some d) :
    Least near far seed p d := by
  obtain ⟨level, sound⟩ := valid.sound
  refine ⟨sound.walked noted, fun n walk => ?_⟩
  rcases valid.frontier walk with ⟨e, le, same⟩ | ⟨entry, queued, le⟩
  · have : d = e := Option.some.inj (noted.symm.trans same)
    omega
  · have sorted := sound.layered.1
    rw [front, List.map_cons, List.pairwise_cons] at sorted
    rw [front, List.mem_cons] at queued
    rcases queued with rfl | later
    · exact le
    · exact (sorted.1 _ (List.mem_map_of_mem later)).trans le

theorem Valid.step (valid : Valid near far seed s) (stepped : s.step? near far = some t) :
    Valid near far seed t := by
  obtain ⟨level, sound⟩ := valid.sound
  obtain ⟨p, d, rest, front, outcome⟩ := step_cases stepped
  have later {entry} (member : entry ∈ rest.toList) : entry ∈ s.queue.toList :=
    front ▸ List.mem_cons_of_mem _ member
  have popped : Sound near far seed d { s with queue := rest } :=
    ⟨sound.walked, fun member => sound.queued (later member), sound.layered.tail front,
      fun entry member => sound.bounded entry (later member)⟩
  rcases outcome with ⟨⟨e, lower, noted⟩, rfl⟩ | ⟨current, rfl⟩
  · refine ⟨valid.seeded, ⟨d, popped⟩, fun {q n} known => ?_⟩
    rcases valid.closed known with queued | expanded
    · rw [front, List.mem_cons] at queued
      rcases queued with same | member
      · obtain ⟨rfl, rfl⟩ := Prod.mk.inj same
        have : n = e := Option.some.inj (known.symm.trans noted)
        omega
      · exact .inl member
    · exact .inr expanded
  · obtain ⟨e, le, noted⟩ := sound.queued (front ▸ List.mem_cons_self : (p, d) ∈ s.queue.toList)
    obtain rfl : e = d := Nat.le_antisymm le (current e noted)
    have follows :
        Follows { s with queue := rest } (expand near far { s with queue := rest } p e) :=
      expand_follows
    have least := valid.least_of_front front noted
    refine ⟨follows.known valid.seeded, ⟨e, popped.expand least⟩, fun {q n} known => ?_⟩
    rcases follows.queued_of_new known with earlier | member
    · rcases valid.closed earlier with queued | ⟨expanded, distance⟩
      · rw [front, List.mem_cons] at queued
        rcases queued with same | member
        · obtain ⟨rfl, rfl⟩ := Prod.mk.inj same
          exact .inr ⟨expanded_expand, least⟩
        · exact .inl (follows.queue_subset _ member)
      · exact .inr ⟨Expanded.follows (s := { s with queue := rest }) expanded follows, distance⟩
    · exact .inl member

theorem Reached.valid (reached : Reached near far seed s) : Valid near far seed s := by
  induction reached with
  | start => exact .start
  | step _ stepped ih => exact ih.step stepped

/-- When nothing waits, the noted depths are the distances. -/
theorem Valid.best_eq_some_iff (valid : Valid near far seed s) (done : s.queue.toList = []) :
    s.best[q]? = some d ↔ Least near far seed q d := by
  obtain ⟨level, sound⟩ := valid.sound
  have known {n} (walk : Walks near far seed q n) : s.Known q n := by
    rcases valid.frontier walk with known | ⟨entry, queued, _⟩
    · exact known
    · rw [done] at queued
      cases queued
  constructor
  · intro noted
    refine ⟨sound.walked noted, fun n walk => ?_⟩
    obtain ⟨e, le, same⟩ := known walk
    exact (Option.some.inj (noted.symm.trans same)) ▸ le
  · intro least
    obtain ⟨e, le, noted⟩ := known least.walk
    have same : e = d := Nat.le_antisymm le (least.le (sound.walked noted))
    exact same ▸ noted

/-- All depths of a state stay within a limit: those that are noted, those in the queue, and that of
the next level when the front of the queue is to be expanded. -/
structure Shallow (limit : Nat) (s : Search) : Prop where
  noted_le : ∀ {q : PinId} {d : Nat}, s.best[q]? = some d → d ≤ limit
  queued_le : ∀ {q : PinId} {d : Nat}, (q, d) ∈ s.queue.toList → d ≤ limit
  next_le : ∀ {q : PinId} {d : Nat} {rest : List (PinId × Nat)},
    s.queue.toList = (q, d) :: rest → s.best[q]? = some d → d + 1 ≤ limit

theorem Shallow.mono (shallow : s.Shallow limit) (bound : limit ≤ n) : s.Shallow n :=
  ⟨fun noted => (shallow.noted_le noted).trans bound,
    fun queued => (shallow.queued_le queued).trans bound,
    fun front noted => (shallow.next_le front noted).trans bound⟩

theorem Valid.shallow (valid : Valid near far seed s)
    (deep : ∀ {q n}, Least near far seed q n → n < limit) : s.Shallow limit := by
  obtain ⟨level, sound⟩ := valid.sound
  have queued_le {q d} (queued : (q, d) ∈ s.queue.toList) : d ≤ limit := by
    obtain ⟨p, n, least, bound⟩ := sound.bounded _ queued
    exact bound.trans (deep least)
  refine ⟨fun noted => ?_, queued_le, fun front noted => deep (valid.least_of_front front noted)⟩
  rcases valid.closed noted with queued | ⟨_, least⟩
  · exact queued_le queued
  · exact Nat.le_of_lt (deep least)

end TimingExplorer.Cone.Search
