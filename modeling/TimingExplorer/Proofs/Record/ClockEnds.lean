import Mathlib.Data.List.Basic
import Mathlib.Data.List.Induction
import TimingExplorer.Design.Search
import TimingExplorer.Proofs.Record.Linking
import TimingExplorer.Proofs.Record.Stages

/-!
The clock ends that a record holds. They are determined on demand and kept from then on. Nothing but
the next determination moves them, so a side that is populated in between has other nodes than those
that its clock end was determined on.
-/
namespace TimingExplorer

namespace PathRecord

variable {r : PathRecord} {side : Side} {operations : List Operation}

def clockEnd (r : PathRecord) : Side → Int
  | .launch => r.launchClockEnd
  | .capture => r.captureClockEnd

/-- The clock end of a side is a place in the sequence as it is now, its end, or -1. -/
def ClockEndFits (r : PathRecord) (side : Side) : Prop :=
  -1 ≤ r.clockEnd side ∧ r.clockEnd side ≤ (r.ids side).length

/-- The roles of the nodes of a side. -/
def sideFlags (r : PathRecord) (side : Side) : List NodeFlags := (r.sideNodes side).map (·.flags)

theorem some_sideFlags (whole : r.Partitioned) :
    (r.sideFlags side).map some = (r.sideData side).map (Option.map (·.flags)) := by
  have nodes := congrArg (List.map (Option.map (·.flags))) (whole.map_get? side)
  rw [List.map_map, List.map_map] at nodes
  rw [sideFlags, sideData, List.map_map, List.map_map]
  refine nodes.symm.trans (List.map_congr_left fun id _ => ?_)
  rw [Function.comp_apply, Function.comp_apply, NodeArena.data, Option.map_map]
  rfl

theorem sideFlags_eq {flags : List NodeFlags} (whole : r.Partitioned)
    (same : (r.sideData side).map (Option.map (·.flags)) = flags.map some) :
    r.sideFlags side = flags :=
  List.map_injective_iff.mpr (fun _ _ => Option.some.inj) ((some_sideFlags whole).trans same)

theorem length_ids (whole : r.Partitioned) (side : Side) :
    (r.ids side).length = (r.sideFlags side).length := by
  have length := congrArg List.length (whole.map_get? side)
  rw [List.length_map, List.length_map] at length
  rw [length, sideFlags, List.length_map]

/-! What one operation does to the roles on a side and to its clock end. -/

/-- The nodes that an operation puts on a side, if it populates that side and does not fail. -/
def Operation.installs? : Operation → Side → Option (List PathNode)
  | .populateLaunch ctx path clockExpanded, .launch =>
    (stageNodes ctx path 0 clockExpanded).toOption
  | .populateCapture ctx path offset clockExpanded, .capture =>
    (stageNodes ctx path offset clockExpanded).toOption
  | _, _ => none

/-- The nodes that were last put on a side. -/
def shown (operations : List Operation) (side : Side) : List PathNode :=
  operations.foldl (fun nodes operation => (operation.installs? side).getD nodes) []

theorem sideFlags_installSide (whole : r.Partitioned) (db : DesignDatabase) (side : Side)
    (fresh : List PathNode) :
    (r.installSide db side fresh).sideFlags side = fresh.map (·.flags) ∧
      (r.installSide db side fresh).sideFlags side.other = r.sideFlags side.other := by
  have after : (r.installSide db side fresh).Partitioned := .installSide r db side fresh
  obtain ⟨installed, others⟩ := sideData_installSide whole db fresh
  constructor
  · refine sideFlags_eq after ?_
    rw [installed, List.map_map, List.map_map]
    rfl
  · refine sideFlags_eq after ?_
    rw [others, some_sideFlags whole]

theorem sideFlags_pairCommonNodes (whole : r.Partitioned) :
    r.pairCommonNodes.sideFlags side = r.sideFlags side := by
  refine sideFlags_eq whole.pairCommonNodes ?_
  rw [sideData_pairCommonNodes, some_sideFlags whole]

theorem sideFlags_spreadSlack (whole : r.Partitioned) :
    r.spreadSlack.sideFlags side = r.sideFlags side := by
  refine sideFlags_eq whole.spreadSlack ?_
  cases side with
  | launch =>
    rw [some_sideFlags whole, sideData_launch_spreadSlack, List.map_map]
    refine List.map_congr_left fun data _ => ?_
    rw [Function.comp_apply, Option.map_map]
    rfl
  | capture => rw [some_sideFlags whole, sideData_capture_spreadSlack whole]

/-- A walk that fails leaves both sides as they are. -/
theorem sideFlags_populate (whole : r.Partitioned) (db : DesignDatabase) (side : Side)
    (walked : QueryResult (List PathNode)) :
    let after := (walked.map (r.installSide db side)).toOption.getD r
    after.sideFlags side = (walked.toOption.map (List.map (·.flags))).getD (r.sideFlags side) ∧
      after.sideFlags side.other = r.sideFlags side.other := by
  cases walked with
  | error e => exact ⟨rfl, rfl⟩
  | ok fresh => exact sideFlags_installSide whole db side fresh

theorem sideFlags_step (whole : r.Partitioned) (operation : Operation) (side : Side) :
    (r.step operation).sideFlags side =
      ((operation.installs? side).map (List.map (·.flags))).getD (r.sideFlags side) := by
  cases operation with
  | populateLaunch ctx path clockExpanded =>
    obtain ⟨here, there⟩ := sideFlags_populate whole ctx.database .launch
      (stageNodes ctx path 0 clockExpanded)
    cases side with
    | launch => exact here
    | capture => exact there
  | populateCapture ctx path offset clockExpanded =>
    obtain ⟨here, there⟩ := sideFlags_populate whole ctx.database .capture
      (stageNodes ctx path offset clockExpanded)
    cases side with
    | launch => exact there
    | capture => exact here
  | pairCommonNodes => exact sideFlags_pairCommonNodes whole
  | spreadSlack => exact sideFlags_spreadSlack whole
  | computeClockEnds | applySummary => cases side <;> rfl
  | set setting => cases side <;> cases setting <;> rfl

theorem clockEnd_step {operation : Operation} (other : operation ≠ .computeClockEnds)
    (side : Side) : (r.step operation).clockEnd side = r.clockEnd side := by
  have installed (ctx : Context) (at' : Side) (walked : QueryResult (List PathNode)) :
      ((walked.map (r.installSide ctx.database at')).toOption.getD r).clockEnd side =
        r.clockEnd side := by
    cases walked <;> cases at' <;> cases side <;> rfl
  cases operation with
  | populateLaunch ctx path clockExpanded => exact installed ctx .launch _
  | populateCapture ctx path offset clockExpanded => exact installed ctx .capture _
  | computeClockEnds => exact absurd rfl other
  | pairCommonNodes | spreadSlack | applySummary => cases side <;> rfl
  | set setting => cases side <;> cases setting <;> rfl

theorem clockEnd_computeClockEnds (r : PathRecord) (side : Side) :
    (r.step .computeClockEnds).clockEnd side = clockEndIndex (r.sideNodes side) := by
  cases side <;> rfl

/-! What any operations do. -/

theorem run_append (r : PathRecord) (before after : List Operation) :
    r.run (before ++ after) = (r.run before).run after := List.foldl_append

theorem shown_append (before after : List Operation) (side : Side) : shown (before ++ after) side =
    after.foldl (fun nodes operation => (operation.installs? side).getD nodes)
      (shown before side) := List.foldl_append

theorem partitioned_run (operations : List Operation) :
    (PathRecord.empty.run operations).Partitioned := (WellLinked.empty.run operations).whole

theorem sideFlags_run (operations : List Operation) (side : Side) :
    (PathRecord.empty.run operations).sideFlags side = (shown operations side).map (·.flags) := by
  -- The state before a step has to be a run from the empty record, hence the last step first.
  induction operations using List.reverseRecOn with
  | nil => cases side <;> rfl
  | append_singleton before operation ih =>
    have last : (PathRecord.empty.run (before ++ [operation])) =
        (PathRecord.empty.run before).step operation := run_append _ before [operation]
    rw [last, sideFlags_step (partitioned_run before), ih, shown_append, List.foldl_cons,
      List.foldl_nil]
    cases operation.installs? side <;> rfl

theorem length_ids_run (operations : List Operation) (side : Side) :
    ((PathRecord.empty.run operations).ids side).length = (shown operations side).length := by
  rw [length_ids (partitioned_run operations), sideFlags_run, List.length_map]

theorem clockEndIndex_sideNodes_run (operations : List Operation) (side : Side) :
    clockEndIndex ((PathRecord.empty.run operations).sideNodes side) =
      clockEndIndex (shown operations side) :=
  clockEndIndex_congr (sideFlags_run operations side)

theorem clockEnd_run (r : PathRecord) (side : Side) (kept : .computeClockEnds ∉ operations) :
    (r.run operations).clockEnd side = r.clockEnd side := by
  induction operations generalizing r with
  | nil => rfl
  | cons operation rest ih =>
    obtain ⟨other, later⟩ := List.ne_and_not_mem_of_not_mem_cons kept
    exact (ih (r.step operation) later).trans (clockEnd_step (Ne.symm other) side)

theorem neg_one_le_clockEnd_run (operations : List Operation) (side : Side) :
    -1 ≤ (PathRecord.empty.run operations).clockEnd side := by
  induction operations using List.reverseRecOn with
  | nil => cases side <;> exact Int.le_refl _
  | append_singleton before operation ih =>
    rw [run_append]
    by_cases last : operation = .computeClockEnds
    · subst last
      exact (clockEnd_computeClockEnds _ side).symm ▸ neg_one_le_clockEndIndex _
    · exact (clockEnd_step last side).symm ▸ ih

/-- A side that nothing is put on keeps what it shows. -/
theorem shown_append_of_kept {after : List Operation} (before : List Operation)
    (kept : ∀ operation ∈ after, operation.installs? side = none) :
    shown (before ++ after) side = shown before side := by
  rw [shown_append]
  generalize shown before side = nodes
  induction after with
  | nil => rfl
  | cons operation rest ih =>
    rw [List.foldl_cons, kept operation List.mem_cons_self]
    exact ih fun later member => kept later (List.mem_cons_of_mem _ member)

/-- The clock end of a side after any operations. It is -1 until it is determined, and never less.
From then on it tells where the clock part of those nodes ended that the side showed at the time.
That is within the side as it is now just if the side has not become too short, and so always if
nothing was put on the side since. -/
theorem clockEnd_of_run (operations : List Operation) (side : Side) :
    let r := PathRecord.empty.run operations
    (r.ids side).length = (shown operations side).length ∧ -1 ≤ r.clockEnd side ∧
      (.computeClockEnds ∉ operations → r.clockEnd side = -1) ∧
      ∀ before after, operations = before ++ .computeClockEnds :: after →
        .computeClockEnds ∉ after →
        r.clockEnd side = clockEndIndex (shown before side) ∧
          (r.ClockEndFits side ↔
            clockEndIndex (shown before side) ≤ (shown operations side).length) ∧
          ((∀ operation ∈ after, operation.installs? side = none) →
            r.clockEnd side = clockEndIndex (r.sideNodes side) ∧ r.ClockEndFits side) := by
  intro r
  have length : (r.ids side).length = (shown operations side).length :=
    length_ids_run operations side
  have lower : -1 ≤ r.clockEnd side := neg_one_le_clockEnd_run operations side
  refine ⟨length, lower, fun never => ?_, fun before after split last => ?_⟩
  · exact (clockEnd_run _ side never).trans (by cases side <;> rfl)
  have held : r.clockEnd side = clockEndIndex (shown before side) := by
    calc r.clockEnd side
      _ = (((PathRecord.empty.run before).step .computeClockEnds).run after).clockEnd side := by
        rw [show r = PathRecord.empty.run operations from rfl, split, run_append]
        rfl
      _ = ((PathRecord.empty.run before).step .computeClockEnds).clockEnd side :=
        clockEnd_run _ side last
      _ = clockEndIndex ((PathRecord.empty.run before).sideNodes side) :=
        clockEnd_computeClockEnds _ side
      _ = clockEndIndex (shown before side) := clockEndIndex_sideNodes_run before side
  have fits : r.ClockEndFits side ↔
      clockEndIndex (shown before side) ≤ (shown operations side).length := by
    rw [ClockEndFits, held, length]
    exact and_iff_right (held ▸ lower)
  refine ⟨held, fits, fun kept => ?_⟩
  -- The determination itself puts nothing on a side either.
  have still : shown operations side = shown before side := by
    rw [split]
    exact shown_append_of_kept before (List.forall_mem_cons.mpr ⟨by cases side <;> rfl, kept⟩)
  constructor
  · rw [held, clockEndIndex_sideNodes_run, still]
  · rw [fits, still]
    exact clockEndIndex_le_length _

/-- A block with a clock input and an output. One path stays on the clock from the one to the other,
and another one is the output alone, as data. -/
def clockOrData : Design :=
  let stage (pin : Nat) (isClock : Bool) : PathStage :=
    { pin := ⟨pin⟩, isClock, isRising := true, isSink := pin = 1
      arrival := 0, delay := 0, slew := 0, load := 0 }
  let path (stages : List PathStage) : Design.StoredPath :=
    { point := ⟨⟨0⟩, .max⟩, stages, searchable := true
      summary :=
        { startClock := none, endClock := none, slack := 0, arrival := 0, required := 0
          pathDelay := 0 } }
  { corners := .ofList ["typ"]
    pins := .ofList [
      { name := "clk", inst := none, terminal := .ofBlock ⟨0⟩, direction := .input, isClock := true
        net := some ⟨0⟩ },
      { name := "out", inst := none, terminal := .ofBlock ⟨1⟩, direction := .output
        net := some ⟨0⟩ }]
    blockTerminals := .ofList [⟨0⟩, ⟨1⟩]
    nets := .ofList [{ name := "n", pins := [⟨0⟩, ⟨1⟩] }]
    paths := .ofList [path [stage 0 true, stage 1 true], path [stage 1 false]] }

/-- The clock path is shown, its clock end is determined, and then the data path is shown. -/
def shortened : List Operation := [
  .populateLaunch clockOrData.context ⟨0⟩ true, .computeClockEnds,
  .populateLaunch clockOrData.context ⟨1⟩ true]

/-- The clock end may lie behind the end of the side. -/
theorem not_forall_clockEndFits :
    ¬ ∀ operations side, (PathRecord.empty.run operations).ClockEndFits side := by
  intro fits
  have held : (PathRecord.empty.run shortened).clockEnd .launch = 2 := rfl
  have length : ((PathRecord.empty.run shortened).ids .launch).length = 1 := rfl
  obtain ⟨_, upper⟩ := fits shortened .launch
  rw [held, length] at upper
  omega

theorem clockEnd_of_run_shortened :
    (PathRecord.empty.run shortened).clockEnd .launch = 2 ∧
      ¬ (PathRecord.empty.run shortened).ClockEndFits .launch ∧
      (PathRecord.empty.run (shortened.take 2)).ClockEndFits .launch := by
  have determined : clockEndIndex (shown (shortened.take 1) .launch) = 2 := rfl
  obtain ⟨_, _, _, split⟩ := clockEnd_of_run shortened .launch
  obtain ⟨_, _, _, split'⟩ := clockEnd_of_run (shortened.take 2) .launch
  obtain ⟨held, fits, _⟩ := split (shortened.take 1) (shortened.drop 2) rfl (by simp [shortened])
  obtain ⟨_, _, kept⟩ := split' (shortened.take 1) [] rfl List.not_mem_nil
  refine ⟨held.trans determined, fun inside => ?_, (kept nofun).2⟩
  have length : (shown shortened .launch).length = 1 := rfl
  have upper := fits.mp inside
  rw [determined, length] at upper
  omega

end PathRecord

end TimingExplorer
