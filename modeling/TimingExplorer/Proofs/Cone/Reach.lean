import TimingExplorer.Design.Search
import TimingExplorer.Proofs.Cone.DepthMap
import TimingExplorer.Proofs.Cone.Termination

/-!
The cone on one side of a seed is the map of distances: a pin lies at the least number of nets that
a walk from the seed crosses. Engines are arbitrary; the pins within reach are only asked to be
finitely many, and few enough that their depths are 32-bit numbers.
-/
namespace TimingExplorer

namespace TimingEngine

/-- A step along a cell arc. -/
def CellHop (engine : TimingEngine) (direction : Direction) (p q : PinId) : Prop :=
  q ∈ engine.instanceArcs p direction

/-- A step across a net: from a driver to another load, or backward from a load to another driver.
-/
def NetHop (engine : TimingEngine) : Direction → PinId → PinId → Prop
  | .forward, p, q => ∃ net, engine.pinNet p = some net ∧
      p ∈ engine.netDrivers net ∧ q ∈ engine.netLoads net ∧ q ≠ p
  | .backward, p, q => ∃ net, engine.pinNet p = some net ∧
      p ∈ engine.netLoads net ∧ q ∈ engine.netDrivers net ∧ q ≠ p

/-- The pins that walks from the seed lead to. -/
def Within (engine : TimingEngine) (direction : Direction) (seed : PinId) : Set PinId :=
  Cone.Within (engine.CellHop direction) (engine.NetHop direction) seed

/-- The least number of nets on a walk from the seed. -/
def Distance (engine : TimingEngine) (direction : Direction) (seed q : PinId) (d : Nat) : Prop :=
  Cone.Distance (engine.CellHop direction) (engine.NetHop direction) seed q d

variable {engine : TimingEngine} {direction : Direction} {seed p q : PinId} {d : Nat}

theorem mem_netNeighbors : q ∈ engine.netNeighbors direction p ↔ engine.NetHop direction p q := by
  cases direction <;> cases net : engine.pinNet p <;>
    simp only [netNeighbors, NetHop, net, List.not_mem_nil, false_and, exists_false,
      Option.some.injEq, exists_eq_left', reduceCtorEq]
  all_goals
    split
    · next member => simp [List.contains_iff_mem.mp member]
    · next other => simp [mt List.contains_iff_mem.mpr other]

theorem within_eq : Cone.Within (fun p q => q ∈ engine.cellNeighbors direction p)
    (fun p q => q ∈ engine.netNeighbors direction p) seed = engine.Within direction seed := by
  simp only [mem_netNeighbors]
  rfl

theorem least_iff : Cone.Search.Least (engine.cellNeighbors direction)
    (engine.netNeighbors direction) seed q d ↔ engine.Distance direction seed q d := by
  simp only [Cone.Search.Least, mem_netNeighbors]
  rfl

/-- The states of the search for a cone. -/
def Searching (engine : TimingEngine) (direction : Direction) (seed : PinId) :
    Cone.Search → Prop :=
  Cone.Search.Reached (engine.cellNeighbors direction) (engine.netNeighbors direction) seed

/-- A depth map holds the distances: just the pins within reach, each on the level of its distance,
with no level missing in between. -/
structure Distances (engine : TimingEngine) (direction : Direction) (seed : PinId)
    (m : DepthMap) : Prop where
  at_iff : ∀ d q, m.At d q ↔ ∃ n : Nat, d = n ∧ engine.Distance direction seed q n
  at_seed : m.At 0 seed
  existsUnique_at : ∀ q ∈ engine.Within direction seed, ∃! d, m.At d q
  not_at : ∀ q ∉ engine.Within direction seed, ∀ d, ¬ m.At d q
  populated : m.Populated
  levels : ∃ deepest : Nat, ∀ d, d ∈ m ↔ 0 ≤ d ∧ d ≤ deepest
  lt_length : ∀ d ∈ m, d < m.entries.length

end TimingEngine

namespace DepthMap

variable {engine : TimingEngine} {direction : Direction} {seed : PinId} {m : DepthMap}

/-- The deepest level is that of some pin, and the walk to it passes all levels above. -/
theorem exists_deepest (finite : (engine.Within direction seed).Finite) (populated : m.Populated)
    (at_iff : ∀ d q, m.At d q ↔ ∃ n : Nat, d = n ∧ engine.Distance direction seed q n) :
    ∃ deepest : Nat, ∀ d, d ∈ m ↔ 0 ≤ d ∧ d ≤ deepest := by
  let level (n : Nat) : Prop := ∃ q, engine.Distance direction seed q n
  have mem_iff (d : Int) : d ∈ m ↔ ∃ n : Nat, d = n ∧ level n := by
    constructor
    · intro stored
      obtain ⟨q, here⟩ := populated d stored
      obtain ⟨n, same, least⟩ := (at_iff d q).mp here
      exact ⟨n, same, q, least⟩
    · rintro ⟨n, rfl, q, least⟩
      exact ((at_iff n q).mpr ⟨n, rfl, least⟩).mem
  have bounded : ∀ n, level n → n ≤ (engine.Within direction seed).ncard := by
    rintro n ⟨q, least⟩
    exact Nat.le_of_lt (least.lt_ncard finite)
  have first : level 0 := ⟨seed, Cone.distance_seed⟩
  classical
  obtain ⟨q, deepest⟩ := Nat.findGreatest_spec (Nat.zero_le _) first
  refine ⟨Nat.findGreatest level (engine.Within direction seed).ncard, fun d => ?_⟩
  rw [mem_iff]
  constructor
  · rintro ⟨n, rfl, here⟩
    exact ⟨Int.natCast_nonneg n, Int.ofNat_le.mpr (Nat.le_findGreatest (bounded n here) here)⟩
  · rintro ⟨nonneg, le⟩
    obtain ⟨n, rfl⟩ := Int.eq_ofNat_of_zero_le nonneg
    exact ⟨n, rfl, deepest.exists_of_le (Int.ofNat_le.mp le)⟩

end DepthMap

namespace TimingEngine

variable {engine : TimingEngine} {direction : Direction} {seed q : PinId}

theorem reach_of_net (known : engine.containsPin seed = true)
    (attached : (engine.pinNet seed).isSome = true) : engine.reach direction seed =
      .ok (.ofDepths ((Cone.depths (engine.cellNeighbors direction) (engine.netNeighbors direction)
        seed).toList.map fun (pin, depth) => (pin, (depth : Int)))) := by
  have net : (engine.pinNet seed).isNone = false := by
    simpa only [Option.isNone_eq_false_iff] using attached
  simp only [reach, known, net, if_true, Bool.false_eq_true, if_false]

/-- A cone whose search is known to end can be computed. -/
theorem reach_of_runFor {m : DepthMap} (steps : Nat) (known : engine.containsPin seed = true)
    (attached : (engine.pinNet seed).isSome = true)
    (ran : ((Cone.Search.start seed).runFor (engine.cellNeighbors direction)
      (engine.netNeighbors direction) steps).map (fun last =>
        DepthMap.ofDepths (last.best.toList.map fun (pin, depth) => (pin, (depth : Int)))) =
          some m) : engine.reach direction seed = .ok m := by
  obtain ⟨last, ended, rfl⟩ := Option.map_eq_some_iff.mp ran
  rw [reach_of_net known attached, Cone.depths, Cone.Search.run?_of_runFor ended]
  rfl

/-- The depths that a search ends with are the distances. -/
theorem at_iff_of_run {last : Cone.Search}
    (ran : (Cone.Search.start seed).run? (engine.cellNeighbors direction)
      (engine.netNeighbors direction) = some last) (d : Int) (q : PinId) :
    (DepthMap.ofDepths ((Cone.depths (engine.cellNeighbors direction)
      (engine.netNeighbors direction) seed).toList.map fun (pin, depth) => (pin, (depth : Int)))).At
        d q ↔ ∃ n : Nat, d = n ∧ engine.Distance direction seed q n := by
  obtain ⟨valid, done⟩ := Cone.Search.valid_of_run ran
  simp only [Cone.depths, ran, Option.map_some, Option.getD_some, DepthMap.at_ofDepths,
    List.mem_map, Prod.exists, Prod.mk.injEq, Std.TreeMap.mem_toList_iff_getElem?_eq_some,
    valid.best_eq_some_iff done, least_iff]
  constructor
  · rintro ⟨_, n, least, rfl, rfl⟩
    exact ⟨n, rfl, least⟩
  · rintro ⟨n, rfl, least⟩
    exact ⟨q, n, least, rfl, rfl⟩

theorem exists_reach (known : engine.containsPin seed = true)
    (attached : (engine.pinNet seed).isSome = true)
    (finite : (engine.Within direction seed).Finite) :
    ∃ m, engine.reach direction seed = .ok m ∧ engine.Distances direction seed m := by
  refine ⟨_, reach_of_net known attached, ?_⟩
  generalize found : DepthMap.ofDepths _ = m
  have populated : m.Populated := found ▸ DepthMap.populated_ofDepths _
  obtain ⟨last, ran, _⟩ := Cone.Search.exists_run_start (within_eq ▸ finite)
  have at_iff : ∀ d q, m.At d q ↔ ∃ n : Nat, d = n ∧ engine.Distance direction seed q n :=
    fun d q => found ▸ at_iff_of_run ran d q
  obtain ⟨deepest, levels⟩ := DepthMap.exists_deepest finite populated at_iff
  refine ⟨at_iff, (at_iff 0 seed).mpr ⟨0, rfl, Cone.distance_seed⟩, ?_, ?_, populated,
    ⟨deepest, levels⟩, ?_⟩
  · rintro q ⟨_, walk⟩
    obtain ⟨n, _, least⟩ := walk.exists_distance
    refine ⟨n, (at_iff n q).mpr ⟨n, rfl, least⟩, fun d other => ?_⟩
    obtain ⟨k, rfl, also⟩ := (at_iff d q).mp other
    exact congrArg Int.ofNat (also.unique least)
  · intro q outside d stored
    obtain ⟨n, _, least⟩ := (at_iff d q).mp stored
    exact outside least.walk.within
  · intro d stored
    have below := m.lt_length_entries populated fun n le =>
      (levels n).mpr ⟨Int.natCast_nonneg n, Int.ofNat_le.mpr le⟩
    have := (levels d).mp stored
    omega

/-- Nothing lies in a cone whose search has no end, so the pins of any cone lie at their distances.
-/
theorem at_iff_of_reach {m : DepthMap} {e : Int} {p : PinId}
    (found : engine.reach direction seed = .ok m) (here : m.At e p) (d : Int) (q : PinId) :
    m.At d q ↔ ∃ n : Nat, d = n ∧ engine.Distance direction seed q n := by
  unfold reach at found
  split at found
  · split at found
    · obtain rfl := Except.ok.inj found
      exact absurd here DepthMap.not_at_empty
    · obtain rfl := Except.ok.inj found
      cases ran : (Cone.Search.start seed).run? (engine.cellNeighbors direction)
          (engine.netNeighbors direction) with
      | none => simp [Cone.depths, ran, DepthMap.at_ofDepths] at here
      | some last => exact at_iff_of_run ran d q
  · cases found

/-- What lies across a net from a pin of a cone, in the direction of the cone, is in it too. -/
theorem at_of_netHop {m : DepthMap} {e : Int} {p : PinId}
    (found : engine.reach direction seed = .ok m) (here : m.At e p)
    (hop : engine.NetHop direction p q) : ∃ d, m.At d q := by
  obtain ⟨n, _, least⟩ := (at_iff_of_reach found here e p).mp here
  obtain ⟨d, _, least⟩ := (least.walk.acrossNet hop).exists_distance
  exact ⟨d, (at_iff_of_reach found here d q).mpr ⟨d, rfl, least⟩⟩

theorem Searching.shallow {s : Cone.Search} (searching : engine.Searching direction seed s)
    (finite : (engine.Within direction seed).Finite) :
    s.Shallow (engine.Within direction seed).ncard :=
  (Cone.Search.Reached.valid searching).shallow fun least => (least_iff.mp least).lt_ncard finite

/-- What the cone on one side of a seed is. An unknown seed is refused, and a seed without a net has
an empty cone. Otherwise the search ends, no depth that it computes exceeds 31 bits, and the cone is
the map of distances. -/
theorem reach_distances (engine : TimingEngine) (direction : Direction) (seed : PinId) :
    (engine.containsPin seed = false →
      engine.reach direction seed = .error (.unknownPin seed)) ∧
    (engine.containsPin seed = true → engine.pinNet seed = none →
      engine.reach direction seed = .ok ∅) ∧
    (engine.containsPin seed = true → (engine.pinNet seed).isSome = true →
      (engine.Within direction seed).Finite → (engine.Within direction seed).ncard < 2 ^ 31 →
      (∃ last, (Cone.Search.start seed).run? (engine.cellNeighbors direction)
        (engine.netNeighbors direction) = some last) ∧
      (∀ s, engine.Searching direction seed s → s.Shallow (2 ^ 31 - 1)) ∧
      ∃ m, engine.reach direction seed = .ok m ∧ engine.Distances direction seed m) := by
  refine ⟨?_, ?_, ?_⟩
  · intro unknown
    simp only [reach, unknown, Bool.false_eq_true, if_false]
  · intro known floating
    simp only [reach, known, floating, Option.isNone_none, if_true]
  · intro known attached finite few
    refine ⟨?_, ?_, exists_reach known attached finite⟩
    · obtain ⟨last, ended, _⟩ := Cone.Search.exists_run_start (within_eq ▸ finite)
      exact ⟨last, ended⟩
    · intro s searching
      exact (Searching.shallow searching finite).mono (Nat.le_sub_one_of_lt few)

end TimingEngine

/-- An inverter whose output drives its own input, so that walks go round without end. -/
def Design.ring : Design where
  instances := .ofList [{ name := "u", master := "INV", pins := [⟨0⟩, ⟨1⟩] }]
  pins := .ofList [
    { name := "A", inst := some ⟨0⟩, terminal := .ofInstance ⟨0⟩, direction := .input
      net := some ⟨0⟩ },
    { name := "Z", inst := some ⟨0⟩, terminal := .ofInstance ⟨1⟩, direction := .output
      net := some ⟨0⟩ }]
  nets := .ofList [{ name := "n", pins := [⟨1⟩, ⟨0⟩] }]

theorem Design.within_ring : Design.ring.engine.Within .forward ⟨1⟩ ⊆ {⟨0⟩, ⟨1⟩} := by
  rintro q ⟨n, walk⟩
  induction walk with
  | start => exact .inr rfl
  | throughCell _ step ih =>
    rcases ih with rfl | rfl
    · exact .inr (List.mem_singleton.mp step)
    · cases step
  | acrossNet _ step ih =>
    rw [← TimingEngine.mem_netNeighbors] at step
    rcases ih with rfl | rfl
    · cases step
    · exact .inl (List.mem_singleton.mp step)

theorem TimingEngine.reach_ring :
    Design.ring.engine.containsPin ⟨1⟩ = true ∧ (Design.ring.engine.pinNet ⟨1⟩).isSome = true ∧
      (Design.ring.engine.Within .forward ⟨1⟩).Finite ∧
      (Design.ring.engine.Within .forward ⟨1⟩).ncard < 2 ^ 31 ∧
      ∃ m, Design.ring.engine.reach .forward ⟨1⟩ = .ok m ∧ m.At 0 ⟨1⟩ ∧ m.At 1 ⟨0⟩ := by
  have pair : ({⟨0⟩, ⟨1⟩} : Set PinId).Finite := Set.toFinite _
  have finite := pair.subset Design.within_ring
  have few : (Design.ring.engine.Within .forward ⟨1⟩).ncard < 2 ^ 31 := by
    have count := Set.ncard_le_ncard Design.within_ring pair
    rw [Set.ncard_pair (by decide)] at count
    omega
  refine ⟨rfl, rfl, finite, few, ?_⟩
  obtain ⟨_, _, m, reached, distances⟩ :=
    (reach_distances Design.ring.engine .forward ⟨1⟩).2.2 rfl rfl finite few
  refine ⟨m, reached, distances.at_seed, (distances.at_iff 1 ⟨0⟩).mpr ⟨1, rfl, ?_, ?_⟩⟩
  · exact .acrossNet .start (mem_netNeighbors.mp (List.mem_singleton_self _))
  · intro n walk
    cases walk with
    | throughCell before step =>
      rcases Design.within_ring before.within with rfl | rfl
      · cases List.mem_singleton.mp step
      · cases step
    | acrossNet => omega

end TimingExplorer
