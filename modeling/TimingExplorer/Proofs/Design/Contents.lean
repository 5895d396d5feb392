import Mathlib.Data.List.Forall2
import TimingExplorer.Proofs.Design.Connection

/-!
Loading timing and paths, and with them whole snapshots. Of several entries for a pin at one
analysis point the last counts. A capture path is stored right after the path that it belongs to.
-/
namespace TimingExplorer

namespace Snapshot

/-- A stored path is one that is written itself or the capture path of one. -/
inductive PathEntry where
  | launch (spec : PathSpec)
  | capture (spec : PathSpec) (captured : CaptureSpec)

def PathSpec.entries (spec : PathSpec) : List PathEntry :=
  .launch spec :: (spec.capture.map (.capture spec)).toList

/-- All stored paths in the order of their ids. -/
def pathEntries (s : Snapshot) : List PathEntry := s.paths.flatMap PathSpec.entries

end Snapshot

namespace Design

open Snapshot

/-- Whether an entry gives the timing of this pin at this analysis point. -/
def IsTimingOf (d : Design) (pin : PinId) (point : AnalysisPoint) (spec : TimingSpec) : Prop :=
  d.findPin spec.pin = some pin ∧ d.findCorner spec.corner = some point.corner ∧
    spec.minMax = point.minMax

instance (d : Design) (pin : PinId) (point : AnalysisPoint) (spec : TimingSpec) :
    Decidable (d.IsTimingOf pin point spec) :=
  inferInstanceAs (Decidable (_ ∧ _))

/-- The last entry for a pin at an analysis point. -/
def lastTiming (d : Design) (entries : List TimingSpec) (pin : PinId) (point : AnalysisPoint) :
    Option TimingSpec :=
  entries.reverse.find? fun spec => d.IsTimingOf pin point spec

/-- The timing of every pin is what its last entry says. -/
def Timed (s : Snapshot) (d : Design) : Prop :=
  ∀ pin point, d.pinTiming pin point = (d.lastTiming s.timing pin point).map fun spec =>
    { arrival := spec.arrival, slew := spec.slew, load := spec.load, isRising := spec.rising
      slack := spec.slack }

/-- A stage as it is written; its pin says what is left out. -/
def StageAsWritten (d : Design) (spec : StageSpec) (stage : PathStage) : Prop :=
  ∃ pin p, d.findPin spec.pin = some pin ∧ d.pins.get? pin = some p ∧
    stage =
      { pin, isClock := spec.clock.getD p.isClock, isRising := spec.rising, isSink := !p.drives
        arrival := spec.arrival, delay := spec.delay, slew := spec.slew, load := spec.load }

/-- From the first of these times to the last; zero if there is none. -/
def spanOf (times : List Double) : Double :=
  match times with
  | [] => 0
  | first :: rest => rest.getLastD first - first

/-- A path as it is written, stored under the given id. -/
def PathAsWritten (d : Design) (path : PathId) : PathEntry → StoredPath → Prop
  | .launch spec, stored => ∃ corner stages, d.findCorner spec.corner = some corner ∧
      List.Forall₂ d.StageAsWritten spec.stages stages ∧
      stored =
        { point := ⟨corner, spec.minMax⟩
          summary :=
            { startClock := spec.startClock, endClock := spec.endClock
              slack := spec.slack.getD .infinity
              arrival := spec.arrival, required := spec.required
              pathDelay := spec.pathDelay.getD (spanOf (stages.map (·.arrival))) }
          stages
          capture := spec.capture.map fun captured => ⟨⟨path.raw + 1⟩, captured.offset⟩
          searchable := true }
  | .capture spec captured, stored => ∃ corner stages, d.findCorner spec.corner = some corner ∧
      List.Forall₂ d.StageAsWritten captured.stages stages ∧
      stored =
        { point := ⟨corner, spec.minMax⟩
          summary :=
            { startClock := spec.endClock, endClock := spec.endClock
              slack := .infinity
              arrival := (stages.getLast?.map (·.arrival)).getD 0, required := 0
              pathDelay := spanOf (stages.map (·.arrival)) }
          stages
          capture := none
          searchable := false }

/-- The stored paths are the written ones, in order. -/
def Stored (s : Snapshot) (d : Design) : Prop :=
  List.Forall₂ (fun (entry, i) stored => d.PathAsWritten ⟨i⟩ entry stored) s.pathEntries.zipIdx
    d.paths.toList

variable {s : Snapshot} {d : Design} {pin : PinId} {point : AnalysisPoint}

theorem reads_lookUpCorner (n : Netlist s d) (name : String) :
    Reads [.corner name s.corners] (fun corner => d.findCorner name = some corner)
      (.of (d.lookUpCorner name)) (d.lookUpCorner name) := by
  have known : (d.findCorner name).isSome = true ↔ name ∈ s.corners := by
    rw [n.findCorner.isSome_iff, List.mem_eraseDups]
  have outcome : d.lookUpCorner name =
      (d.findCorner name).elim (.error (.unknownCorner name)) .ok := by
    unfold lookUpCorner
    cases d.findCorner name <;> rfl
  rw [outcome]
  exact .lookUp (.corner name s.corners) _ known

theorem stageSpan_eq (stages : List PathStage) :
    stageSpan stages = spanOf (stages.map (·.arrival)) := by
  cases stages with
  | nil => rfl
  | cons first rest =>
    cases rest using List.reverseRecOn with
    | nil => rfl
    | append_singleton rest last => simp [stageSpan, spanOf, List.getLast?_cons]

/-! ## Timing -/

theorem pinTiming_setTiming (at' : PinId) (of' : AnalysisPoint) (timing : PinTiming) :
    (d.setTiming at' of' timing).pinTiming pin point =
      if at' = pin ∧ of' = point then some timing else d.pinTiming pin point := by
  rw [pinTiming, setTiming, Std.TreeMap.getD_insert]
  by_cases same : at' = pin
  · subst same
    by_cases here : of' = point
    · simp [here]
    · have other : (point == of') = false := beq_false_of_ne (Ne.symm here)
      simp [here, other, List.lookup_cons, pinTiming]
  · rw [if_neg (by simpa using same), if_neg fun both => same both.1]
    rfl

theorem lastTiming_append (entries : List TimingSpec) (spec : TimingSpec) :
    d.lastTiming (entries ++ [spec]) pin point =
      if d.IsTimingOf pin point spec then some spec else d.lastTiming entries pin point := by
  by_cases here : d.IsTimingOf pin point spec <;> simp [lastTiming, here]

theorem Timed.nil (untimed : d.timing = ∅) : Timed { s with timing := [] } d := by
  intro pin point
  simp [pinTiming, untimed, lastTiming]

theorem reads_timing {before : List TimingSpec} (n : Netlist s d) (c : Connected s d)
    (pathless : d.paths = .empty) (timed : Timed { s with timing := before } d)
    (spec : TimingSpec) : Reads (timingDemands s.pinNames s.corners before spec)
      (fun e => Netlist s e ∧ Connected s e ∧ e.paths = .empty ∧
        Timed { s with timing := before ++ [spec] } e)
      (d.replayTiming spec) (d.loadTiming spec) := by
  refine (reads_lookUpPin n.findPin spec.pin).bind fun pin found => ?_
  refine (reads_lookUpCorner n spec.corner).bind fun corner placed => ?_
  have done : d.buildAll? [.timing pin ⟨corner, spec.minMax⟩ spec.timing] =
    some (d.setTiming pin ⟨corner, spec.minMax⟩ spec.timing) := buildAll?_singleton _
  refine .perform n.built done ⟨?_, ⟨c.names, c.members⟩, pathless, fun other point => ?_⟩
  · exact n.of_views (n.built.grow done) rfl (fun _ => rfl) rfl rfl rfl
  · have sought : d.IsTimingOf other point spec ↔
        pin = other ∧ (⟨corner, spec.minMax⟩ : AnalysisPoint) = point := by
      obtain ⟨at', minMax⟩ := point
      simp [IsTimingOf, found, placed]
    have last : (d.setTiming pin ⟨corner, spec.minMax⟩ spec.timing).lastTiming
        (before ++ [spec]) other point = d.lastTiming (before ++ [spec]) other point := rfl
    rw [pinTiming_setTiming, last, lastTiming_append, apply_ite (Option.map _), Option.map_some,
      ← timed]
    simp only [sought]
    rfl

/-! ## Paths -/

theorem reads_stage (n : Netlist s d) (spec : StageSpec) :
    Reads [.pin spec.pin s.pinNames] (d.StageAsWritten spec) (d.replayStage spec)
      (d.loadStage spec) := by
  -- The loading takes a known pin without a stage for an unknown one, but every known pin has one.
  have split : d.loadStage spec = d.lookUpPin spec.pin >>= fun pin =>
      (d.stage? pin spec.arrival spec.delay).elim (.error (.unknownPin spec.pin)) fun stage =>
        .ok (spec.over stage) := by
    unfold loadStage lookUpPin
    cases d.findPin spec.pin with
    | none => rfl
    | some pin =>
      rw [Option.bind_some]
      show _ = (d.stage? pin spec.arrival spec.delay).elim _ _
      cases d.stage? pin spec.arrival spec.delay <;> rfl
  rw [split]
  refine (reads_lookUpPin n.findPin spec.pin).bindDone fun pin found => ?_
  have stored := (d.pins.isSome_get? pin).trans (n.contains found)
  obtain ⟨p, here⟩ := Option.isSome_iff_exists.mp stored
  rw [stage?, here]
  exact ⟨rfl, .done ⟨pin, p, found, here, rfl⟩⟩

theorem reads_stages (n : Netlist s d) (specs : List StageSpec) :
    Reads (stageDemands s.pinNames specs) (List.Forall₂ d.StageAsWritten specs)
      (d.replayStages specs) (d.loadStages specs) := by
  induction specs with
  | nil => exact .of (.done .nil)
  | cons spec rest ih =>
    refine (reads_stage n spec).bind fun stage written => ?_
    exact ih.bindDone fun stages later => .done (.cons written later)

/-- What a path leaves as it is. -/
theorem Netlist.withPaths {paths : Arena .path StoredPath} (n : Netlist s d)
    (built : Buildable { d with paths }) : Netlist s { d with paths } :=
  n.of_views built rfl (fun _ => rfl) rfl rfl rfl

/-- The capture path of the path stored last. -/
theorem addCapture?_nextId (d : Design) (launch : StoredPath) (offset : Double)
    (stages : List PathStage) :
    (({ d with paths := d.paths.push launch } : Design).addCapture? d.paths.nextId offset
      stages).map Prod.snd = some { d with
        paths := (d.paths.push { launch with
          capture := some ⟨⟨d.paths.nextId.raw + 1⟩, offset⟩ }).push
            (captureOf launch stages) } := by
  have here : (d.paths.push launch).get? d.paths.nextId = some launch :=
    (Arena.get?_push _ _ _).trans (if_pos rfl)
  have old : (d.paths.push launch).contains d.paths.nextId = true := by
    rw [← Arena.isSome_get?, here]
    rfl
  have next : (d.paths.push launch).nextId = ⟨d.paths.nextId.raw + 1⟩ :=
    congrArg Id.mk (Arena.size_push d.paths launch)
  rw [addCapture?, here, next]
  -- The launch path is no longer the last when its capture is set.
  dsimp only [Option.map_some]
  rw [Arena.modify_push _ _ _ old, Arena.modify_push_nextId]

theorem Stored.size (stored : Stored s d) : d.paths.size = s.pathEntries.length := by
  rw [← Arena.length_toList, ← stored.length_eq, List.length_zipIdx]

theorem Stored.append {before : List PathSpec} {spec : PathSpec} {more : List StoredPath}
    {paths : Arena .path StoredPath} (stored : Stored { s with paths := before } d)
    (all : paths.toList = d.paths.toList ++ more)
    (added : List.Forall₂ (fun (entry, i) stored => d.PathAsWritten ⟨i⟩ entry stored)
      (spec.entries.zipIdx d.paths.size) more) :
    Stored { s with paths := before ++ [spec] } { d with paths } := by
  have entries : ({ s with paths := before ++ [spec] } : Snapshot).pathEntries =
      ({ s with paths := before } : Snapshot).pathEntries ++ spec.entries := by
    simp [pathEntries]
  show List.Forall₂ (fun (entry, i) stored => d.PathAsWritten ⟨i⟩ entry stored) _ paths.toList
  rw [entries, List.zipIdx_append, all, Nat.zero_add, ← stored.size]
  exact List.rel_append stored added

theorem Stored.nil (pathless : d.paths = .empty) : Stored { s with paths := [] } d := by
  unfold Stored
  rw [pathless]
  exact .nil

theorem reads_path {before : List PathSpec} (n : Netlist s d) (c : Connected s d)
    (timed : Timed s d) (stored : Stored { s with paths := before } d) (spec : PathSpec) :
    Reads (pathDemands s.pinNames s.corners before spec)
      (fun e => Netlist s e ∧ Connected s e ∧ Timed s e ∧
        Stored { s with paths := before ++ [spec] } e)
      (d.replayPath spec) (d.loadPath spec) := by
  refine (reads_lookUpCorner n spec.corner).bind fun corner placed => ?_
  refine (reads_stages n spec.stages).bind fun stages written => ?_
  let launch : StoredPath :=
    { point := ⟨corner, spec.minMax⟩, summary := spec.summary stages, stages, searchable := true }
  let placed' : Design := { d with paths := d.paths.push launch }
  have done : d.buildAll? [.path launch.point launch.summary stages] = some placed' :=
    buildAll?_singleton _
  refine .performThen n.built done ?_
  have n' : Netlist s placed' := n.withPaths (n.built.grow done)
  cases captured : spec.capture with
  | none =>
    refine .done ⟨n', ⟨c.names, c.members⟩, timed, stored.append (Arena.toList_push _ _) ?_⟩
    rw [PathSpec.entries, captured]
    refine .cons ⟨corner, stages, placed, written, ?_⟩ .nil
    rw [captured, ← stageSpan_eq]
    rfl
  | some capture =>
    refine (reads_stages n' capture.stages).bindDone fun stages' written' => ?_
    let opened : StoredPath :=
      { launch with capture := some ⟨⟨d.paths.nextId.raw + 1⟩, capture.offset⟩ }
    let paths := (d.paths.push opened).push (captureOf launch stages')
    have added : (placed'.addCapture? d.paths.nextId capture.offset stages').map Prod.snd =
        some { placed' with paths } := addCapture?_nextId d launch capture.offset stages'
    have last : placed'.buildAll? [.capture d.paths.nextId capture.offset stages'] =
        some { placed' with paths } := (buildAll?_singleton _).trans added
    show Reads _ _ _ (.ok (((placed'.addCapture? _ _ _).map Prod.snd).getD placed'))
    rw [added]
    refine .perform n'.built last
      ⟨n'.withPaths (n'.built.grow last), ⟨c.names, c.members⟩, timed, ?_⟩
    have all : paths.toList = d.paths.toList ++ [opened, captureOf launch stages'] := by
      rw [Arena.toList_push, Arena.toList_push, List.append_assoc]
      rfl
    refine stored.append all ?_
    rw [PathSpec.entries, captured]
    refine .cons ⟨corner, stages, placed, written, ?_⟩
      (.cons ⟨corner, stages', placed, written', ?_⟩ .nil)
    · rw [captured, ← stageSpan_eq]
      rfl
    · rw [← stageSpan_eq]
      rfl

/-! ## Whole snapshots -/

/-- What a snapshot comes to. -/
structure Contents (s : Snapshot) (d : Design) : Prop where
  netlist : Netlist s d
  connected : Connected s d
  timed : Timed s d
  stored : Stored s d

theorem reads_snapshot (s : Snapshot) : Reads s.demands (Contents s) (replay s) (ofSnapshot s) := by
  obtain ⟨n, bare⟩ := netlist_corners s
  refine .performThen .empty (buildAll?_corners s.corners) ?_
  refine (reads_blockPins s n bare).bind fun d ⟨n, bare⟩ => ?_
  refine (reads_instances s n bare).bind fun d ⟨n, bare⟩ => ?_
  refine (reads_nets n (.of_bare bare) (fun name => by simp) s.nets).bind
    fun e ⟨n, c, timing, paths⟩ => ?_
  have untimed := Timed.nil (s := s) (timing.trans bare.timing)
  refine (Reads.foldlM (fun before e => Netlist s e ∧ Connected s e ∧ e.paths = .empty ∧
    Timed { s with timing := before } e)
    (fun _ spec _ ⟨n, c, pathless, timed⟩ => reads_timing n c pathless timed spec)
    ⟨n, c, paths.trans bare.paths, untimed⟩).bind fun e ⟨n, c, pathless, timed⟩ => ?_
  exact (Reads.foldlM (fun before e => Netlist s e ∧ Connected s e ∧ Timed s e ∧
    Stored { s with paths := before } e)
    (fun _ spec _ ⟨n, c, timed, stored⟩ => reads_path n c timed stored spec)
    ⟨n, c, timed, .nil pathless⟩).imp fun e ⟨n, c, timed, stored⟩ => ⟨n, c, timed, stored⟩

theorem Contents.of_loaded (loaded : ofSnapshot s = .ok d) : Contents s d := by
  have answers := (reads_snapshot s).answers
  rw [loaded] at answers
  exact answers.2

theorem exists_loaded (met : ∀ demand ∈ s.demands, demand.Met) : ∃ d, ofSnapshot s = .ok d :=
  (reads_snapshot s).answers.exists_ok_iff.mpr met

end Design

end TimingExplorer
