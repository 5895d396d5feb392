import TimingExplorer.Proofs.Cone.Reach
import TimingExplorer.Proofs.Failure

/-!
The cone on both sides of a seed. A pin on one side only keeps its depth, turned negative on the
fanin side, and a pin on both sides lies at the lesser of its depths, at that of the fanout side if
they are equal.
-/
namespace TimingExplorer

namespace DepthMap

variable {m fanin fanout : DepthMap} {d e k : Int} {q : PinId}

/-- No pin is stored at two depths. -/
def Single (m : DepthMap) : Prop := ∀ {d e q}, m.At d q → m.At e q → d = e

/-- The depth of a pin once both cones have been looked at. -/
def Placed (fanin fanout : DepthMap) (d : Int) (q : PinId) : Prop :=
  (fanout.At d q ∧ ∀ k, fanin.At k q → d ≤ k) ∨
    ∃ k, fanin.At k q ∧ d = -k ∧ ∀ n, fanout.At n q → k < n

theorem getElem?_foldl_insert {entries : List (Int × PinId)} {depths : Std.TreeMap PinId Int}
    (single : ∀ e, (e, q) ∈ entries → e = d) :
    (entries.foldl (fun m (depth, pin) => m.insert pin depth) depths)[q]? =
      if (d, q) ∈ entries then some d else depths[q]? := by
  induction entries generalizing depths with
  | nil => simp
  | cons entry rest ih =>
    obtain ⟨e, p⟩ := entry
    rw [List.foldl_cons, ih fun e member => single e (List.mem_cons_of_mem _ member),
      Std.TreeMap.getElem?_insert]
    simp only [Std.compare_eq_iff_eq, List.mem_cons, Prod.mk.injEq]
    by_cases here : p = q
    · obtain rfl := single e (here ▸ List.mem_cons_self)
      simp [here]
    · simp [here, Ne.symm here]

/-- Adding the fanin side changes only pins whose depth there is less than the one they have. -/
theorem getElem?_foldl_turn {entries : List (Int × PinId)} {depths : Std.TreeMap PinId Int}
    (single : ∀ e, (e, q) ∈ entries → e = d) (nonneg : 0 ≤ d) :
    (entries.foldl (fun m (depth, pin) =>
        if (m[pin]?).any (· ≤ depth) then m else m.insert pin (-depth)) depths)[q]? =
      if (d, q) ∈ entries ∧ ¬ (depths[q]?).any (· ≤ d) = true then some (-d) else depths[q]? := by
  induction entries generalizing depths with
  | nil => simp
  | cons entry rest ih =>
    obtain ⟨e, p⟩ := entry
    rw [List.foldl_cons, ih fun e member => single e (List.mem_cons_of_mem _ member)]
    by_cases here : p = q
    · obtain rfl := single e (here ▸ List.mem_cons_self)
      subst here
      by_cases near : (depths[p]?).any (· ≤ e) = true
      · simp [near]
      · have turned : -e ≤ e := by omega
        simp [near, turned]
    · have kept : (if (depths[p]?).any (· ≤ e) = true then depths else depths.insert p (-e))[q]? =
          depths[q]? := by
        split
        · rfl
        · rw [Std.TreeMap.getElem?_insert, if_neg (mt Std.compare_eq_iff_eq.mp here)]
      simp [kept, Ne.symm here]

/-- The depths of the fanout side, as a table of pins. -/
theorem getElem?_fanoutDepths (single : fanout.Single) :
    (fanout.entries.foldl (fun m (depth, pin) => m.insert pin depth)
      (∅ : Std.TreeMap PinId Int))[q]? = some d ↔ fanout.At d q := by
  constructor
  · intro found
    by_cases stored : ∃ e, fanout.At e q
    · obtain ⟨e, here⟩ := stored
      rw [getElem?_foldl_insert fun _ member => single (mem_entries.mp member) here,
        if_pos (mem_entries.mpr here)] at found
      exact Option.some.inj found ▸ here
    · have absent : ∀ e, (e, q) ∉ fanout.entries :=
        fun e member => stored ⟨e, mem_entries.mp member⟩
      rw [getElem?_foldl_insert (d := 0) fun e member => absurd member (absent e),
        if_neg (absent 0), Std.TreeMap.getElem?_emptyc] at found
      cases found
  · intro here
    rw [getElem?_foldl_insert fun _ member => single (mem_entries.mp member) here,
      if_pos (mem_entries.mpr here)]

variable (singleIn : fanin.Single) (singleOut : fanout.Single)

include singleIn singleOut

theorem Placed.unique (first : Placed fanin fanout d q) (second : Placed fanin fanout e q) :
    d = e := by
  rcases first with ⟨out, near⟩ | ⟨k, inside, rfl, near⟩ <;>
    rcases second with ⟨out', near'⟩ | ⟨k', inside', rfl, near'⟩
  · exact singleOut out out'
  · have := near k' inside'
    have := near' d out
    omega
  · have := near' k inside
    have := near e out'
    omega
  · rw [singleIn inside inside']

variable (nonneg : ∀ {d q}, fanin.At d q → 0 ≤ d)

include nonneg

/-- A pin on the fanin side keeps its depth on the other side if that is no greater. -/
theorem exists_mergedDepth_of_fanin (inside : fanin.At k q) :
    ∃ d, (mergedDepths fanin fanout)[q]? = some d ∧ Placed fanin fanout d q := by
  have out (n) := getElem?_fanoutDepths singleOut (d := n) (q := q)
  rw [mergedDepths, getElem?_foldl_turn (fun _ member => singleIn (mem_entries.mp member) inside)
    (nonneg inside)]
  simp only [mem_entries.mpr inside, true_and]
  cases found : (fanout.entries.foldl (fun m (depth, pin) => m.insert pin depth)
      (∅ : Std.TreeMap PinId Int))[q]? with
  | none =>
    refine ⟨-k, by simp, .inr ⟨k, inside, rfl, fun n here => ?_⟩⟩
    rw [(out n).mpr here] at found
    cases found
  | some n =>
    have here : fanout.At n q := (out n).mp found
    by_cases near : n ≤ k
    · exact ⟨n, by simp [near], .inl ⟨here, fun e other => singleIn other inside ▸ near⟩⟩
    · refine ⟨-k, by simp [near], .inr ⟨k, inside, rfl, fun e other => ?_⟩⟩
      rw [singleOut other here]
      omega

theorem mergedDepths_eq_some_iff :
    (mergedDepths fanin fanout)[q]? = some d ↔ Placed fanin fanout d q := by
  by_cases stored : ∃ k, fanin.At k q
  · obtain ⟨k, inside⟩ := stored
    obtain ⟨e, found, placed⟩ := exists_mergedDepth_of_fanin singleIn singleOut nonneg inside
    rw [found, Option.some.injEq]
    constructor
    · rintro rfl
      exact placed
    · exact placed.unique singleIn singleOut
  · have absent : ∀ e, (e, q) ∉ fanin.entries := fun e member => stored ⟨e, mem_entries.mp member⟩
    rw [mergedDepths, getElem?_foldl_turn (d := 0) (fun e member => absurd member (absent e))
      (Int.le_refl 0), if_neg fun both => absent 0 both.1, getElem?_fanoutDepths singleOut]
    constructor
    · exact fun here => .inl ⟨here, fun k inside => absurd ⟨k, inside⟩ stored⟩
    · rintro (⟨here, _⟩ | ⟨k, inside, _⟩)
      · exact here
      · exact absurd ⟨k, inside⟩ stored

theorem at_merge : (fanin.merge fanout).At d q ↔ Placed fanin fanout d q := by
  rw [merge, at_ofDepths, Std.TreeMap.mem_toList_iff_getElem?_eq_some,
    mergedDepths_eq_some_iff singleIn singleOut nonneg]

theorem exists_placed_iff : (∃ d, Placed fanin fanout d q) ↔
    (∃ d, fanout.At d q) ∨ ∃ d, fanin.At d q := by
  constructor
  · rintro ⟨d, ⟨here, _⟩ | ⟨k, inside, _⟩⟩
    · exact .inl ⟨d, here⟩
    · exact .inr ⟨k, inside⟩
  · intro either
    by_cases stored : ∃ k, fanin.At k q
    · obtain ⟨k, inside⟩ := stored
      obtain ⟨d, _, placed⟩ := exists_mergedDepth_of_fanin singleIn singleOut nonneg inside
      exact ⟨d, placed⟩
    · obtain ⟨d, here⟩ := either.resolve_right stored
      exact ⟨d, .inl ⟨here, fun k inside => absurd ⟨k, inside⟩ stored⟩⟩

end DepthMap

namespace TimingEngine

variable {engine : TimingEngine} {direction : Direction} {seed q : PinId} {m : DepthMap} {d : Int}

theorem Distances.single (distances : engine.Distances direction seed m) : m.Single := by
  intro d e q first second
  obtain ⟨n, rfl, least⟩ := (distances.at_iff d q).mp first
  obtain ⟨k, rfl, also⟩ := (distances.at_iff e q).mp second
  exact congrArg Int.ofNat (least.unique also)

theorem Distances.nonneg (distances : engine.Distances direction seed m) (here : m.At d q) :
    0 ≤ d := by
  obtain ⟨n, rfl, _⟩ := (distances.at_iff d q).mp here
  exact Int.natCast_nonneg n

theorem Distances.lt_ncard (distances : engine.Distances direction seed m)
    (finite : (engine.Within direction seed).Finite) (here : m.At d q) :
    d < (engine.Within direction seed).ncard := by
  obtain ⟨n, rfl, least⟩ := (distances.at_iff d q).mp here
  exact Int.ofNat_lt.mpr (least.lt_ncard finite)

/-- What the cone on both sides of a seed is. An unknown seed is refused, and a seed without a net
has an empty cone. Otherwise it holds just the pins of the two cones, each at one depth: at that of
the fanout cone unless the pin lies in the fanin cone at a lesser one, which then counts as
negative. -/
theorem cone_both (engine : TimingEngine) (seed : PinId) :
    (engine.containsPin seed = false → engine.cone seed .both = .error (.unknownPin seed)) ∧
    (engine.containsPin seed = true → engine.pinNet seed = none → engine.cone seed .both = .ok ∅) ∧
    (engine.containsPin seed = true → (engine.pinNet seed).isSome = true →
      (engine.Within .backward seed).Finite → (engine.Within .forward seed).Finite →
      ∃ fanin fanout m, engine.faninCone seed = .ok fanin ∧ engine.fanoutCone seed = .ok fanout ∧
        engine.cone seed .both = .ok m ∧
        (∀ d q, m.At d q ↔ (fanout.At d q ∧ ∀ k, fanin.At k q → d ≤ k) ∨
          ∃ k, fanin.At k q ∧ d = -k ∧ ∀ n, fanout.At n q → k < n) ∧
        (∀ q, (∃ d, m.At d q) ↔ (∃ d, fanout.At d q) ∨ ∃ d, fanin.At d q) ∧
        (∀ d e q, m.At d q → m.At e q → d = e) ∧
        m.At 0 seed ∧ m.Populated ∧
        ∀ d q, m.At d q → -(engine.Within .backward seed).ncard < d ∧
          d < (engine.Within .forward seed).ncard) := by
  refine ⟨?_, ?_, ?_⟩
  · intro unknown
    have refused : engine.faninCone seed = .error (.unknownPin seed) := by
      simp only [faninCone, reach, unknown, Bool.false_eq_true, if_false]
    rw [cone, refused]
    rfl
  · intro known floating
    have empty (direction) : engine.reach direction seed = .ok ∅ := by
      simp only [reach, known, floating, Option.isNone_none, if_true]
    rw [cone, faninCone, fanoutCone, empty, empty]
    rfl
  · intro known attached finite finite'
    obtain ⟨fanin, backward, distances⟩ := exists_reach known attached finite
    obtain ⟨fanout, forward, distances'⟩ := exists_reach known attached finite'
    have merged (d q) : (fanin.merge fanout).At d q ↔ DepthMap.Placed fanin fanout d q :=
      DepthMap.at_merge distances.single distances'.single distances.nonneg
    refine ⟨fanin, fanout, fanin.merge fanout, backward, forward, ?_, merged, fun q => ?_, ?_, ?_,
      DepthMap.populated_ofDepths _, ?_⟩
    · rw [cone, faninCone, fanoutCone, backward, forward]
      rfl
    · simp only [merged]
      exact DepthMap.exists_placed_iff distances.single distances'.single distances.nonneg
    · intro d e q first second
      exact DepthMap.Placed.unique distances.single distances'.single ((merged d q).mp first)
        ((merged e q).mp second)
    · exact (merged 0 seed).mpr (.inl ⟨distances'.at_seed, fun k inside => distances.nonneg inside⟩)
    · intro d q here
      rcases (merged d q).mp here with ⟨out, _⟩ | ⟨k, inside, rfl, _⟩
      · have := distances.lt_ncard finite distances.at_seed
        have := distances'.nonneg out
        have := distances'.lt_ncard finite' out
        omega
      · have := distances'.lt_ncard finite' distances'.at_seed
        have := distances.nonneg inside
        have := distances.lt_ncard finite inside
        omega

/-! Whichever cone is asked for, its pins are within reach and each lies at one depth. -/

theorem of_reach_eq_ok (found : engine.reach direction seed = .ok m) :
    m.Single ∧ ∀ d q, m.At d q → 0 ≤ d ∧ q ∈ engine.Within direction seed := by
  constructor
  · intro d e q first second
    obtain ⟨n, rfl, least⟩ := (at_iff_of_reach found first d q).mp first
    obtain ⟨k, rfl, also⟩ := (at_iff_of_reach found first e q).mp second
    exact congrArg Int.ofNat (least.unique also)
  · intro d q here
    obtain ⟨n, rfl, least⟩ := (at_iff_of_reach found here d q).mp here
    exact ⟨Int.natCast_nonneg n, least.walk.within⟩

/-- The cone on both sides is put together from that on each. -/
theorem exists_sides_of_both (found : engine.cone seed .both = .ok m) : ∃ fanin fanout,
    engine.faninCone seed = .ok fanin ∧ engine.fanoutCone seed = .ok fanout ∧
      m = fanin.merge fanout := by
  obtain ⟨fanin, backward, found⟩ := bind_eq_ok.mp found
  obtain ⟨fanout, forward, found⟩ := bind_eq_ok.mp found
  exact ⟨fanin, fanout, backward, forward, (Except.ok.inj found).symm⟩

theorem single_of_cone {direction : ConeDirection} (found : engine.cone seed direction = .ok m) :
    m.Single := by
  cases direction with
  | fanin | fanout => exact (of_reach_eq_ok found).1
  | both =>
    obtain ⟨fanin, fanout, _, _, rfl⟩ := exists_sides_of_both found
    intro d e q first second
    rw [DepthMap.merge, DepthMap.at_ofDepths,
      Std.TreeMap.mem_toList_iff_getElem?_eq_some] at first second
    exact Option.some.inj (first.symm.trans second)

theorem within_of_cone {direction : ConeDirection}
    (found : engine.cone seed direction = .ok m) (here : m.At d q) :
    ∃ way, q ∈ engine.Within way seed := by
  cases direction with
  | fanin => exact ⟨.backward, ((of_reach_eq_ok found).2 d q here).2⟩
  | fanout => exact ⟨.forward, ((of_reach_eq_ok found).2 d q here).2⟩
  | both =>
    obtain ⟨fanin, fanout, backward, forward, rfl⟩ := exists_sides_of_both found
    obtain ⟨single, before⟩ := of_reach_eq_ok backward
    obtain ⟨single', behind⟩ := of_reach_eq_ok forward
    rcases (DepthMap.at_merge single single' fun stored => (before _ _ stored).1).mp here with
      ⟨stored, _⟩ | ⟨k, stored, _, _⟩
    · exact ⟨.forward, (behind d q stored).2⟩
    · exact ⟨.backward, (before k q stored).2⟩

end TimingEngine

theorem Design.within_ring_backward : Design.ring.engine.Within .backward ⟨1⟩ ⊆ {⟨0⟩, ⟨1⟩} := by
  rintro q ⟨n, walk⟩
  induction walk with
  | start => exact .inr rfl
  | throughCell _ step ih =>
    rcases ih with rfl | rfl
    · cases step
    · exact .inl (List.mem_singleton.mp step)
  | acrossNet _ step ih =>
    rw [← TimingEngine.mem_netNeighbors] at step
    rcases ih with rfl | rfl
    · exact .inr (List.mem_singleton.mp step)
    · cases step

/-- On the ring the input lies across the net in one direction and only across the cell in the
other, so it comes to lie at the depth of the seed. -/
theorem TimingEngine.cone_both_ring :
    Design.ring.engine.containsPin ⟨1⟩ = true ∧ (Design.ring.engine.pinNet ⟨1⟩).isSome = true ∧
      (Design.ring.engine.Within .backward ⟨1⟩).Finite ∧
      (Design.ring.engine.Within .forward ⟨1⟩).Finite ∧
      ∃ m, Design.ring.engine.cone ⟨1⟩ .both = .ok m ∧ m.At 0 ⟨1⟩ ∧ m.At 0 ⟨0⟩ := by
  have pair : ({⟨0⟩, ⟨1⟩} : Set PinId).Finite := Set.toFinite _
  have finite := pair.subset Design.within_ring_backward
  have finite' := pair.subset Design.within_ring
  refine ⟨rfl, rfl, finite, finite', ?_⟩
  obtain ⟨fanin, fanout, m, backward, forward, found, placed, _, _, seeded, _⟩ :=
    (cone_both Design.ring.engine ⟨1⟩).2.2 rfl rfl finite finite'
  obtain ⟨_, reached, distances⟩ := exists_reach rfl rfl finite
  obtain rfl := Except.ok.inj (backward.symm.trans reached)
  obtain ⟨_, reached', distances'⟩ := exists_reach rfl rfl finite'
  obtain rfl := Except.ok.inj (forward.symm.trans reached')
  refine ⟨m, found, seeded, (placed 0 ⟨0⟩).mpr (.inr ⟨0, ?_, rfl, fun n out => ?_⟩)⟩
  · refine (distances.at_iff 0 ⟨0⟩).mpr ⟨0, rfl, ?_, fun _ _ => Nat.zero_le _⟩
    exact .throughCell .start (List.mem_singleton_self _)
  · obtain ⟨k, rfl, least⟩ := (distances'.at_iff n ⟨0⟩).mp out
    cases k with
    | succ k => exact Int.natCast_succ_pos k
    | zero =>
      cases least.walk with
      | throughCell before step =>
        rcases Design.within_ring before.within with rfl | rfl
        · cases List.mem_singleton.mp step
        · cases step

end TimingExplorer
