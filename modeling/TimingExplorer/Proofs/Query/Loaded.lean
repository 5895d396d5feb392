import TimingExplorer.Proofs.Cone.Appending
import TimingExplorer.Proofs.Cone.Merge
import TimingExplorer.Proofs.Design.Ranking
import TimingExplorer.Proofs.Design.SelfContained
import TimingExplorer.Proofs.Query.Cones
import TimingExplorer.Proofs.Query.Failures
import TimingExplorer.Proofs.Record.Stages

/-!
Queries on a loaded design that is bound on both sides. The design is self-contained, so whatever a
query comes across can be answered for: once the corner resolves, every query about pins of the
design has an answer.
-/
namespace TimingExplorer

namespace Design

open PathRecord QueryService

variable {s : Snapshot} {d : Design} {pin seed : PinId} {path : PathId} {config : AnalysisConfig}
  {direction : ConeDirection} {m : DepthMap} {search : PathSearch} {paths : List PathId}

theorem Netlist.defaultCorner_eq_none (n : Netlist s d) (none : d.defaultCorner = none) :
    s.corners = [] := by
  have empty : d.corners.isEmpty = true := by
    by_contra nonempty
    rw [defaultCorner, if_neg nonempty] at none
    cases none
  rw [Arena.isEmpty, Array.isEmpty_iff] at empty
  have names := n.corners
  rw [Arena.toList, empty] at names
  apply List.eq_nil_iff_forall_not_mem.mpr
  intro name listed
  rw [← List.mem_eraseDups, ← names] at listed
  cases listed

/-- The default corner is the first one, so there is one unless there are no corners at all. -/
theorem Netlist.exists_point (n : Netlist s d)
    (corner : config.corner = none ∧ s.corners ≠ [] ∨
      ∃ name ∈ s.corners, config.corner = some name) :
    ∃ point, pointOf d.engine config = .ok point := by
  rw [exists_ok_iff]
  intro e failed
  rcases pointOf_eq_error.mp failed with ⟨name, named, absent, _⟩ | ⟨unnamed, missing, _⟩
  · rcases corner with ⟨unnamed, _⟩ | ⟨_, listed, named'⟩
    · rw [unnamed] at named
      cases named
    · obtain rfl := Option.some.inj (named.symm.trans named')
      exact n.findCorner.eq_none_iff.mp absent (List.mem_eraseDups.mpr listed)
  · rcases corner with ⟨_, some⟩ | ⟨_, _, named⟩
    · exact some (n.defaultCorner_eq_none missing)
    · rw [unnamed] at named
      cases named

namespace SelfContained

theorem mapped_of_cone (closed : d.SelfContained) (known : d.pins.contains seed = true)
    (found : d.engine.cone seed direction = .ok m) :
    ∀ entry ∈ m.entries, d.context.Mapped entry.2 := by
  rintro ⟨depth, pin⟩ listed
  obtain ⟨way, reached⟩ := TimingEngine.within_of_cone found (DepthMap.mem_entries.mp listed)
  exact mapped_context_iff.mpr (closed.arcs.contains_of_within closed.wired known reached)

theorem exists_cone (closed : d.SelfContained) (known : d.pins.contains seed = true)
    (point : AnalysisPoint) (earlier : DepthMap) : ∃ m l,
    (ConeBuilder.ofContext d.context).build seed direction point earlier = (m, .ok l) := by
  obtain ⟨m, found⟩ : ∃ m, d.engine.cone seed direction = .ok m := by
    rw [exists_ok_iff]
    intro e failed
    have unknown : d.pins.contains seed = false := (TimingEngine.cone_eq_error.mp failed).1
    rw [known] at unknown
    cases unknown
  obtain ⟨l, made⟩ : ∃ l,
      (ConeBuilder.ofContext d.context).annotate point m .empty = .ok l := by
    rw [exists_ok_iff]
    intro e failed
    rcases ConeBuilder.annotate_eq_error.mp failed with ⟨missing, _⟩ | ⟨_, same, refused⟩
    · cases missing
    · obtain rfl := Option.some.inj same
      exact Context.not_refusesFirst (closed.mapped_of_cone known found) refused
  have engine : (ConeBuilder.ofContext d.context).engine = d.engine := rfl
  refine ⟨m, l, ?_⟩
  rw [ConeBuilder.build, engine, found]
  exact congrArg (m, ·) made

theorem not_walkFailure (closed : d.SelfContained) (known : d.paths.contains path = true)
    (clockExpanded : Bool) (e : QueryError) : ¬ WalkFailure d.context path clockExpanded e := by
  rw [← Arena.isSome_get?, Option.isSome_iff_exists] at known
  obtain ⟨p, stored⟩ := known
  have answered : d.context.engine.pathStages path = some p.stages := by
    show (d.paths.get? path).map (·.stages) = some p.stages
    rw [stored, Option.map_some]
  rintro (absent | ⟨found, which, before, stage, after, split, _, missing⟩)
  · rw [answered] at absent
    cases absent
  · obtain rfl := Option.some.inj (answered.symm.trans found)
    rw [kept_iff.mp which] at split
    have kept : stage ∈ keptStages clockExpanded p.stages := by
      rw [split]
      exact List.mem_append_right _ List.mem_cons_self
    have inside := closed.stages path p stored stage ((keptStages_sublist _ _).subset kept)
    have terminal := (mapped_context_iff.mpr inside).2
    rw [(PathStage.unmapped_iff.mp missing).1] at terminal
    cases terminal

theorem not_recordFailure (closed : d.SelfContained) (known : d.paths.contains path = true)
    (e : QueryError) : ¬ RecordFailure d.context config path e := by
  rintro (absent | ⟨_, failed⟩ | ⟨_, _, _, linked, failed⟩)
  · rw [← Arena.isSome_get?] at known
    have none : d.paths.get? path = none := Option.map_eq_none_iff.mp absent
    rw [none] at known
    cases known
  · exact closed.not_walkFailure known _ e failed
  · obtain ⟨p, stored, linked⟩ := Option.bind_eq_some_iff.mp linked
    exact closed.not_walkFailure (closed.captures path p _ stored linked) _ e failed

theorem exists_records (closed : d.SelfContained)
    (known : ∀ path ∈ paths, d.paths.contains path = true) :
    ∃ records, buildRecords d.context config paths = .ok records := by
  rw [exists_ok_iff]
  intro e failed
  obtain ⟨before, path, after, rfl, _, failed⟩ := buildRecords_eq_error.mp failed
  exact closed.not_recordFailure (known path (List.mem_append_right _ List.mem_cons_self)) e failed

end SelfContained

theorem contains_of_mem_findPaths (found : path ∈ d.findPaths search) :
    d.paths.contains path = true := by
  obtain ⟨p, taken⟩ := mem_findPaths.mp found
  rw [← Arena.isSome_get?, (mem_ranking.mp (List.mem_of_mem_take taken)).1, Option.isSome_some]

/-- Queries on a loaded design are answered: the node of every pin, the cone of every pin in every
direction, whose search ends, and the paths for any groups of pins. -/
theorem queries_answered (loaded : ofSnapshot s = .ok d) (service : QueryService)
    (engine : service.engine = some d.engine) (database : service.database = some d.database)
    (config : AnalysisConfig) (corner : config.corner = none ∧ s.corners ≠ [] ∨
      ∃ name ∈ s.corners, config.corner = some name) :
    (∀ pin, d.pins.contains pin = true → ∃ n, service.timingNodeWith config pin = .ok n) ∧
      (∀ pin direction earlier, d.pins.contains pin = true →
        ∃ m l, service.buildConeWith config direction pin earlier = (m, .ok l)) ∧
      (∀ pin direction, d.pins.contains pin = true → ∃ last,
        (Cone.Search.start pin).run? (d.engine.cellNeighbors direction)
          (d.engine.netNeighbors direction) = some last) ∧
      ∀ starts throughs ends,
        (∀ pin ∈ requestedPins starts throughs ends, d.pins.contains pin = true) →
        ∃ records, service.timingPathsWith config starts throughs ends = .ok records := by
  have closed := SelfContained.of_loaded loaded
  have bound : service.context = .ok d.context := by
    rw [QueryService.context, engine, database]
    rfl
  obtain ⟨point, resolved⟩ := (Contents.of_loaded loaded).netlist.exists_point corner
  refine ⟨?_, ?_, ?_, ?_⟩
  · intro pin known
    rw [timingNodeWith_eq bound resolved]
    exact PathNode.exists_ofPin.mpr (mapped_context_iff.mpr known)
  · intro pin direction earlier known
    rw [buildConeWith_of_point bound resolved]
    exact closed.exists_cone known point earlier
  · intro pin direction known
    have finite : (d.engine.Within direction pin).Finite :=
      closed.arcs.finite_within closed.wired known
    obtain ⟨last, ended, _⟩ := Cone.Search.exists_run_start (TimingEngine.within_eq ▸ finite)
    exact ⟨last, ended⟩
  · intro starts throughs ends known
    have all : (requestedPins starts throughs ends).find? (!d.engine.containsPin ·) = none := by
      rw [List.find?_eq_none]
      intro pin listed
      rw [show d.engine.containsPin pin = true from known pin listed]
      exact Bool.false_ne_true
    rw [timingPathsWith_of_point bound resolved, show d.context.engine = d.engine from rfl, all]
    dsimp only
    split
    · exact ⟨[], rfl⟩
    · apply closed.exists_records
      intro path listed
      exact contains_of_mem_findPaths (List.mem_of_mem_take listed)

/-- A clock that runs through a buffer with a written arc to an output, as a path and as the clock
that it is checked against. -/
def bufferedClock : Snapshot where
  corners := ["slow", "fast"]
  blockPins :=
    [{ name := "clk", direction := .input, clock := true }, { name := "out", direction := .output }]
  instances :=
    [{ name := "b", master := "BUF", arcs := [("A", "Z")]
       pins := [{ name := "A", direction := .input }, { name := "Z", direction := .output }] }]
  nets := [{ name := "in", pins := ["clk", "b/A"] }, { name := "out", pins := ["b/Z", "out"] }]
  paths :=
    [{ corner := "fast"
       stages := [{ pin := "clk", arrival := 0 }, { pin := "b/A", arrival := 1 },
         { pin := "b/Z", arrival := 2 }, { pin := "out", arrival := 3 }]
       capture := some
         { offset := 5
           stages := [{ pin := "clk", arrival := 0 }, { pin := "b/A", arrival := 1 }] } }]

theorem queries_answered_bufferedClock : ∃ d, ofSnapshot bufferedClock = .ok d ∧
    (∃ n, (ofContext d.context).timingNodeWith {} ⟨3⟩ = .ok n) ∧
    (∃ m l, (ofContext d.context).buildConeWith {} .both ⟨2⟩ ∅ = (m, .ok l)) ∧
    ∃ records, (ofContext d.context).timingPathsWith
      { corner := some "fast", includeCapturePaths := true } ∅ [] ((∅ : PinSet).insert ⟨1⟩) =
        .ok records := by
  obtain ⟨d, loaded⟩ := exists_loaded (s := bufferedClock) (by decide)
  have known (i : Nat) (below : i < 4) : d.pins.contains ⟨i⟩ = true := by
    rw [Arena.contains_iff, (Contents.of_loaded loaded).netlist.size_pins]
    exact below
  obtain ⟨nodes, cones, _, _⟩ := queries_answered loaded (ofContext d.context) rfl rfl {}
    (.inl ⟨rfl, by decide⟩)
  obtain ⟨_, _, _, records⟩ := queries_answered loaded (ofContext d.context) rfl rfl
    { corner := some "fast", includeCapturePaths := true } (.inr ⟨"fast", by decide, rfl⟩)
  refine ⟨d, loaded, nodes ⟨3⟩ (known 3 (by decide)), cones ⟨2⟩ .both ∅ (known 2 (by decide)),
    records _ _ _ ?_⟩
  have requested : requestedPins ∅ [] ((∅ : PinSet).insert ⟨1⟩) = [⟨1⟩] := rfl
  rw [requested]
  intro pin listed
  obtain rfl := List.mem_singleton.mp listed
  exact known 1 (by decide)

end Design

end TimingExplorer
