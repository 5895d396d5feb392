import Mathlib.Data.List.Forall2
import TimingExplorer.Proofs.Cone.Annotation
import TimingExplorer.Proofs.Query.Point
import TimingExplorer.Proofs.Record.Sides
import TimingExplorer.Proofs.Record.Stages

/-!
The answer to a path query. Each record describes the path of its handle: the launch nodes show the
stages of the path, the capture nodes those of its capture path, and what is said of the record as a
whole agrees with them.
-/
namespace TimingExplorer

theorem exists_of_forall₂_of_mem {α β : Type} {R : α → β → Prop} {xs : List α} {ys : List β}
    {y : β} (related : List.Forall₂ R xs ys) (member : y ∈ ys) : ∃ x ∈ xs, R x y := by
  induction related with
  | nil => cases member
  | cons first _ ih =>
    rcases List.mem_cons.mp member with rfl | member
    · exact ⟨_, List.mem_cons_self, first⟩
    · obtain ⟨x, listed, here⟩ := ih member
      exact ⟨x, List.mem_cons_of_mem _ listed, here⟩

/-- A node shows a stage of a walk, its arrival moved by the offset. -/
structure ShowsStage (ctx : Context) (offset slack : Double) (stage : PathStage) (n : PathNode) :
    Prop where
  pin : n.pin = stage.pin
  terminal : ctx.database.terminal stage.pin = some n.terminal
  flags : n.flags =
    { isClock := stage.isClock, isRising := stage.isRising, isSink := stage.isSink }
  values : n.values? = some
    { arrival := stage.arrival + offset, delay := stage.delay
      slew := stage.slew, load := stage.load }
  fanout : n.fanout = if stage.isSink then 0 else ctx.engine.fanout stage.pin
  slack : n.slack = slack

variable {ctx : Context} {offset slack : Double} {stage : PathStage} {stages : List PathStage}
  {n : PathNode} {nodes : List PathNode}

theorem showsStage_unlinked :
    ShowsStage ctx offset slack stage n.unlinked ↔ ShowsStage ctx offset slack stage n := by
  constructor
  · rintro ⟨pin, terminal, flags, values, fanout, slack⟩
    exact ⟨pin, terminal, flags, values, fanout, slack⟩
  · rintro ⟨pin, terminal, flags, values, fanout, slack⟩
    exact ⟨pin, terminal, flags, values, fanout, slack⟩

theorem forall₂_showsStage_unlinked :
    List.Forall₂ (ShowsStage ctx offset slack) stages (nodes.map PathNode.unlinked) ↔
      List.Forall₂ (ShowsStage ctx offset slack) stages nodes := by
  simp only [List.forall₂_map_right_iff, showsStage_unlinked]

theorem ShowsStage.setSlack {old : Double} (shown : ShowsStage ctx offset old stage n) :
    ShowsStage ctx offset slack stage (n.setSlack slack) :=
  ⟨shown.pin, shown.terminal, shown.flags, shown.values, shown.fanout, rfl⟩

/-- The nodes show, in order, the stages of a path that are kept. -/
def ShowsPath (ctx : Context) (path : PathId) (clockExpanded : Bool) (offset slack : Double)
    (nodes : List PathNode) : Prop :=
  ∃ stages kept, ctx.engine.pathStages path = some stages ∧ Kept clockExpanded stages kept ∧
    List.Forall₂ (ShowsStage ctx offset slack) kept nodes

section

variable {path : PathId} {clockExpanded : Bool}

theorem showsPath_iff : ShowsPath ctx path clockExpanded offset slack nodes ↔
    ∃ stages, ctx.engine.pathStages path = some stages ∧
      List.Forall₂ (ShowsStage ctx offset slack) (keptStages clockExpanded stages) nodes := by
  constructor
  · rintro ⟨stages, kept, found, which, shown⟩
    obtain rfl := kept_iff.mp which
    exact ⟨stages, found, shown⟩
  · rintro ⟨stages, found, shown⟩
    exact ⟨stages, _, found, kept_iff.mpr rfl, shown⟩

theorem showsPath_unlinked :
    ShowsPath ctx path clockExpanded offset slack (nodes.map PathNode.unlinked) ↔
      ShowsPath ctx path clockExpanded offset slack nodes := by
  simp only [ShowsPath, forall₂_showsStage_unlinked]

theorem ShowsPath.setSlack {old : Double}
    (shown : ShowsPath ctx path clockExpanded offset old nodes) :
    ShowsPath ctx path clockExpanded offset slack (nodes.map (·.setSlack slack)) := by
  obtain ⟨stages, kept, found, which, shown⟩ := shown
  exact ⟨stages, kept, found, which,
    List.forall₂_map_right_iff.mpr (shown.imp fun _ _ => ShowsStage.setSlack)⟩

end

/-- The clock part of a sequence depends only on the roles of its nodes. -/
theorem clockEndIndex_map (f : PathNode → PathNode) (flags : ∀ n, (f n).flags = n.flags)
    (nodes : List PathNode) : clockEndIndex (nodes.map f) = clockEndIndex nodes := by
  refine clockEndIndex_congr ?_
  rw [List.map_map]
  exact List.map_congr_left fun n _ => flags n

namespace PathRecord

variable {path : PathId} {clockExpanded : Bool} {r r' : PathRecord} {side : Side}

theorem resolve_eq_ok {db : DesignDatabase} {resolved : List (PathStage × Terminal)}
    (done : resolve db stages = .ok resolved) :
    List.Forall₂ (fun stage entry => entry.1 = stage ∧ db.terminal stage.pin = some entry.2)
      stages resolved := by
  induction stages generalizing resolved with
  | nil =>
    obtain rfl := Except.ok.inj done
    exact .nil
  | cons stage rest ih =>
    rw [resolve] at done
    split at done
    · cases done
    · next terminal mapped =>
      obtain ⟨later, found, rfl⟩ := map_eq_ok.mp done
      exact .cons ⟨rfl, mapped⟩ (ih found)

theorem stageNodes_eq_ok
    (done : stageNodes ctx path offset clockExpanded = .ok nodes) :
    ∃ stages, ctx.engine.pathStages path = some stages ∧
      List.Forall₂ (ShowsStage ctx offset 0) (keptStages clockExpanded stages) nodes := by
  rw [stageNodes] at done
  split at done
  · cases done
  · next stages found =>
    obtain ⟨_, resolved, rfl⟩ := map_eq_ok.mp done
    refine ⟨stages, found, List.forall₂_map_right_iff.mpr ?_⟩
    refine (resolve_eq_ok resolved).imp fun stage entry ⟨same, mapped⟩ => ?_
    obtain ⟨_, terminal⟩ := entry
    obtain rfl : _ = stage := same
    exact ⟨rfl, mapped, rfl, rfl, rfl, rfl⟩

/-- What a record says of its path as a whole. -/
def summary (r : PathRecord) : PathSummary where
  startClock := r.startClock
  endClock := r.endClock
  slack := r.slack
  arrival := r.arrival
  required := r.required
  pathDelay := r.pathDelay

theorem populate_eq_ok (whole : r.Partitioned)
    (done : (stageNodes ctx path offset clockExpanded).map (r.installSide ctx.database side) =
      .ok r') :
    r'.Partitioned ∧ r'.summary = r.summary ∧ r'.sideData side.other = r.sideData side.other ∧
      ∃ stages nodes, ctx.engine.pathStages path = some stages ∧
        List.Forall₂ (ShowsStage ctx offset 0) (keptStages clockExpanded stages) nodes ∧
        r'.sideData side = nodes.map some := by
  obtain ⟨nodes, walked, rfl⟩ := map_eq_ok.mp done
  obtain ⟨stages, found, shown⟩ := stageNodes_eq_ok walked
  obtain ⟨installed, others⟩ := sideData_installSide whole ctx.database nodes
  refine ⟨.installSide r ctx.database side nodes, ?_, others, stages,
    nodes.map PathNode.unlinked, found, ?_, ?_⟩
  · cases side <;> rfl
  · exact forall₂_showsStage_unlinked.mpr shown
  · rw [installed, List.map_map]

/-- The nodes of a side that was populated show the walk. -/
theorem shows_of_populate (whole : r.Partitioned)
    (done : r.populate ctx path offset clockExpanded side = .ok r')
    (found : ctx.engine.pathStages path = some stages) :
    List.Forall₂ (ShowsStage ctx (side.shift offset) 0) (keptStages clockExpanded stages)
      (r'.sideNodes side) := by
  rw [populate_eq] at done
  obtain ⟨_, _, _, walked, nodes, found', shown, data⟩ := populate_eq_ok whole done
  obtain rfl := Option.some.inj (found.symm.trans found')
  rw [← unlinked_sideNodes data] at shown
  exact forall₂_showsStage_unlinked.mp shown

end PathRecord

namespace QueryService

/-- What the record of a path holds under given settings. -/
structure Describes (ctx : Context) (config : AnalysisConfig) (path : PathId) (r : PathRecord) :
    Prop where
  summary : ctx.engine.pathSummary path = some r.summary
  launchIds : r.launchIds.map r.nodes.get? = r.launchNodes.map some
  captureIds : r.captureIds.map r.nodes.get? = r.captureNodes.map some
  launch : ShowsPath ctx path config.clockExpanded 0 r.slack r.launchNodes
  capture : ∀ capture, config.includeCapturePaths = true →
    ctx.engine.capturePath path = some capture →
    ShowsPath ctx capture.path config.clockExpanded capture.offset 0 r.captureNodes
  noCapture : config.includeCapturePaths = false ∨ ctx.engine.capturePath path = none →
    r.captureNodes = []
  launchClockEnd : r.launchClockEnd = clockEndIndex r.launchNodes
  captureClockEnd : r.captureClockEnd = clockEndIndex r.captureNodes

end QueryService

namespace PathRecord

variable {r : PathRecord}

/-- The steps that finish a record change no node but for its links, and the slack on the launch
side. -/
theorem finish_spec {launch capture : List PathNode} (whole : r.Partitioned)
    (launched : r.sideData .launch = launch.map some)
    (captured : r.sideData .capture = capture.map some) :
    let finished := r.pairCommonNodes.computeClockEnds.spreadSlack
    finished.Partitioned ∧
      finished.launchNodes.map PathNode.unlinked = launch.map (·.setSlack r.slack) ∧
      finished.captureNodes.map PathNode.unlinked = capture ∧
      finished.launchClockEnd = clockEndIndex finished.launchNodes ∧
      finished.captureClockEnd = clockEndIndex finished.captureNodes := by
  intro finished
  have paired : (r.pairCommonNodes.computeClockEnds).Partitioned := whole.pairCommonNodes
  have before : r.pairCommonNodes.launchNodes.map PathNode.unlinked = launch :=
    unlinked_sideNodes (sideData_pairCommonNodes.trans launched)
  have before' : r.pairCommonNodes.captureNodes.map PathNode.unlinked = capture :=
    unlinked_sideNodes (sideData_pairCommonNodes.trans captured)
  have after : finished.launchNodes.map PathNode.unlinked = launch.map (·.setSlack r.slack) := by
    refine unlinked_sideNodes (sideData_launch_spreadSlack.trans ?_)
    rw [show r.pairCommonNodes.computeClockEnds.sideData .launch = launch.map some from
      sideData_pairCommonNodes.trans launched, List.map_map, List.map_map]
    rfl
  have after' : finished.captureNodes.map PathNode.unlinked = capture :=
    unlinked_sideNodes ((sideData_capture_spreadSlack paired).trans
      (sideData_pairCommonNodes.trans captured))
  refine ⟨paired.spreadSlack, after, after', ?_, ?_⟩
  · calc clockEndIndex r.pairCommonNodes.launchNodes
      _ = clockEndIndex launch := by rw [← before, clockEndIndex_map PathNode.unlinked fun _ => rfl]
      _ = clockEndIndex (launch.map (·.setSlack r.slack)) :=
        (clockEndIndex_map (·.setSlack r.slack) (fun _ => rfl) launch).symm
      _ = clockEndIndex finished.launchNodes := by
        rw [← after, clockEndIndex_map PathNode.unlinked fun _ => rfl]
  · calc clockEndIndex r.pairCommonNodes.captureNodes
      _ = clockEndIndex capture := by
        rw [← before', clockEndIndex_map PathNode.unlinked fun _ => rfl]
      _ = clockEndIndex finished.captureNodes := by
        rw [← after', clockEndIndex_map PathNode.unlinked fun _ => rfl]

end PathRecord

namespace QueryService

variable {config : AnalysisConfig} {path : PathId} {r : PathRecord}

/-- A finished record describes the path whose stages both sides were populated with. -/
theorem describes_finished {launch capture : List PathNode} (whole : r.Partitioned)
    (known : ctx.engine.pathSummary path = some r.summary)
    (launched : r.sideData .launch = launch.map some)
    (captured : r.sideData .capture = capture.map some)
    (shown : ShowsPath ctx path config.clockExpanded 0 0 launch)
    (shown' : ∀ clock, config.includeCapturePaths = true →
      ctx.engine.capturePath path = some clock →
      ShowsPath ctx clock.path config.clockExpanded clock.offset 0 capture)
    (absent : config.includeCapturePaths = false ∨ ctx.engine.capturePath path = none →
      capture = []) :
    Describes ctx config path r.pairCommonNodes.computeClockEnds.spreadSlack := by
  obtain ⟨finished, launchNodes, captureNodes, launchEnd, captureEnd⟩ :=
    r.finish_spec whole launched captured
  refine ⟨known, finished.map_get? .launch, finished.map_get? .capture,
    showsPath_unlinked.mp (launchNodes ▸ shown.setSlack), ?_, ?_, launchEnd, captureEnd⟩
  · intro clock included linked
    exact showsPath_unlinked.mp (captureNodes ▸ shown' clock included linked)
  · intro none
    have empty := absent none
    rw [← captureNodes, List.map_eq_nil_iff] at empty
    exact empty

theorem buildRecord_describes (done : buildRecord ctx config path = .ok r) :
    Describes ctx config path r := by
  rw [buildRecord] at done
  split at done
  · next summary known =>
    obtain ⟨launched, walked, done⟩ := bind_eq_ok.mp done
    have start : (PathRecord.empty.applySummary summary).Partitioned := .empty
    obtain ⟨whole, kept, none, stages, launch, found, shown, launchData⟩ :=
      PathRecord.populate_eq_ok start walked
    dsimp only at done
    split at done
    · next absent =>
      obtain rfl := Except.ok.inj done
      have empty : launched.sideData .capture = ([] : List PathNode).map some := none
      refine describes_finished whole (kept ▸ known) launchData empty
        (showsPath_iff.mpr ⟨stages, found, shown⟩) ?_
        fun _ => rfl
      intro clock included linked
      rw [if_pos included, linked] at absent
      cases absent
    · next clock linked =>
      obtain ⟨captured, populated, done⟩ := bind_eq_ok.mp done
      obtain rfl := Except.ok.inj done
      obtain ⟨included, linked⟩ := Option.ite_none_right_eq_some.mp linked
      obtain ⟨whole', kept', others, stages', capture, found', shown', captureData⟩ :=
        PathRecord.populate_eq_ok whole populated
      refine describes_finished whole' (kept' ▸ kept ▸ known) (others.trans launchData) captureData
        (showsPath_iff.mpr ⟨stages, found, shown⟩) ?_ ?_
      · intro other _ same
        obtain rfl := Option.some.inj (linked.symm.trans same)
        exact showsPath_iff.mpr ⟨stages', found', shown'⟩
      · rintro (excluded | none)
        · rw [included] at excluded
          cases excluded
        · rw [linked] at none
          cases none
  · cases done

theorem forall₂_buildRecord {paths : List PathId} {records : List PathRecord}
    (done : buildRecords ctx config paths = .ok records) :
    List.Forall₂ (fun path r => buildRecord ctx config path = .ok r) paths records := by
  induction paths generalizing records with
  | nil =>
    obtain rfl := Except.ok.inj done
    exact .nil
  | cons path rest ih =>
    obtain ⟨record, first, done⟩ := bind_eq_ok.mp done
    obtain ⟨later, others, done⟩ := bind_eq_ok.mp done
    obtain rfl := Except.ok.inj done
    exact .cons first (ih others)

theorem buildRecords_eq_ok {paths : List PathId} {records : List PathRecord}
    (done : buildRecords ctx config paths = .ok records) :
    List.Forall₂ (Describes ctx config) paths records :=
  (forall₂_buildRecord done).imp fun _ _ => buildRecord_describes

/-- Each record of an answer is that of a path which the engine finds. -/
theorem exists_buildRecord {s : QueryService} {starts : PinSet} {throughs : List PinSet}
    {ends : PinSet} {records : List PathRecord}
    (answered : s.timingPathsWith config starts throughs ends = .ok records)
    (member : r ∈ records) : ∃ ctx point path, s.context = .ok ctx ∧
      path ∈ ctx.engine.findPaths { starts, throughs, ends, point
                                    maxPaths := config.maxPathCount
                                    unconstrained := config.includeUnconstrained } ∧
      buildRecord ctx config path = .ok r := by
  rw [timingPathsWith] at answered
  obtain ⟨ctx, bound, answered⟩ := bind_eq_ok.mp answered
  obtain ⟨point, _, answered⟩ := bind_eq_ok.mp answered
  split at answered
  · cases answered
  · split at answered
    · obtain rfl := Except.ok.inj answered
      cases member
    · obtain ⟨path, taken, built⟩ := exists_of_forall₂_of_mem (forall₂_buildRecord answered) member
      exact ⟨ctx, point, path, bound, List.mem_of_mem_take taken, built⟩

/-- The answer to a path query. There are no records if nothing is asked for or a group cannot be
met; otherwise there is one for each handle that the engine finds, in order and no more than asked
for, and it describes the path of the handle. -/
theorem timingPathsWith_describes {s : QueryService} {starts : PinSet} {throughs : List PinSet}
    {ends : PinSet} {records : List PathRecord}
    (answered : s.timingPathsWith config starts throughs ends = .ok records) :
    ∃ ctx point, s.context = .ok ctx ∧ config.StandsFor ctx.engine point ∧
      ((config.maxPathCount = 0 ∨ ∃ group ∈ throughs, group.isEmpty = true) → records = []) ∧
      (¬ (config.maxPathCount = 0 ∨ ∃ group ∈ throughs, group.isEmpty = true) →
        ∀ handles, handles = ctx.engine.findPaths { starts, throughs, ends, point
                                                    maxPaths := config.maxPathCount
                                                    unconstrained := config.includeUnconstrained } →
          records.length = min handles.length config.maxPathCount ∧
          List.Forall₂ (Describes ctx config) (handles.take config.maxPathCount) records) := by
  rw [timingPathsWith] at answered
  obtain ⟨ctx, bound, answered⟩ := bind_eq_ok.mp answered
  obtain ⟨point, resolved, answered⟩ := bind_eq_ok.mp answered
  refine ⟨ctx, point, bound, pointOf_eq_ok.mp resolved, ?_⟩
  split at answered
  · cases answered
  · split at answered
    · next nothing =>
      obtain rfl := Except.ok.inj answered
      rw [List.any_eq_true] at nothing
      exact ⟨fun _ => rfl, fun something => absurd nothing something⟩
    · next something =>
      rw [List.any_eq_true] at something
      refine ⟨fun nothing => absurd nothing something, fun _ handles found => ?_⟩
      subst found
      have described := buildRecords_eq_ok answered
      refine ⟨?_, described⟩
      rw [← described.length_eq, List.length_take, Nat.min_comm]

/-- A clock pin that is a path by itself, captured by itself a period later. The engine finds one
path more than it is asked for. -/
def lonePin : Context where
  engine :=
    { defaultCorner := some ⟨0⟩, findCorner := fun _ => none, cornerName := fun _ => none
      findPaths := fun search => (List.range (search.maxPaths + 1)).map Id.mk
      pathSummary := fun _ => some
        { startClock := none, endClock := none, slack := 1, arrival := 0, required := 1
          pathDelay := 0 }
      pathStages := fun _ => some [
        { pin := ⟨0⟩, isClock := true, isRising := true, isSink := false, arrival := 0, delay := 0
          slew := 0, load := 0 }]
      capturePath := fun path => some { path, offset := 1 }
      pinTiming := fun _ _ => none, containsPin := fun pin => pin = ⟨0⟩, pinNet := fun _ => none
      netDrivers := fun _ => [], netLoads := fun _ => [], pinInstance := fun _ => none
      isLoadPin := fun _ => false, isClockPin := fun _ => true, instanceArcs := fun _ _ => [] }
  database :=
    { terminal := fun _ => some (.ofBlock ⟨0⟩), timingPin := fun _ => some ⟨0⟩
      pinName := fun _ => some "clk", pinShapes := fun _ => [], pinInstance := fun _ => none
      pinNet := fun _ => none, instanceName := fun _ => none, instanceMaster := fun _ => none
      netName := fun _ => none }

theorem timingPathsWith_lonePin : ∃ records,
    (ofContext lonePin).timingPathsWith { maxPathCount := 2, includeCapturePaths := true } ∅ [] ∅ =
      .ok records ∧
    records.length = 2 ∧ List.Forall₂
      (Describes lonePin { maxPathCount := 2, includeCapturePaths := true })
      [⟨0⟩, ⟨1⟩] records := by
  obtain ⟨records, answered⟩ : ∃ records, (ofContext lonePin).timingPathsWith
      { maxPathCount := 2, includeCapturePaths := true } ∅ [] ∅ = .ok records := ⟨_, rfl⟩
  obtain ⟨ctx, point, bound, _, _, found⟩ := timingPathsWith_describes answered
  obtain rfl := Except.ok.inj bound
  obtain ⟨count, described⟩ := found (by simp) _ rfl
  exact ⟨records, answered, count, described⟩

end QueryService

end TimingExplorer
