import TimingExplorer.Design.Builder
import TimingExplorer.Design.Snapshot
import TimingExplorer.Json.Reader

/-!
Loading a design from its written form, in the order corners, pins of the block, instances, nets,
timing, paths. The first name that is taken already or that nothing has ends the loading.
-/

namespace TimingExplorer

open Document

/-- Why a snapshot describes no design. -/
inductive SnapshotError where
  | unknownPin (name : String)
  | unknownCorner (name : String)
  | duplicateName (name : String)
  deriving DecidableEq, Repr

def SnapshotError.message : SnapshotError → String
  | unknownPin name => s!"unknown pin '{name}'"
  | unknownCorner name => s!"unknown corner '{name}'"
  | duplicateName name => s!"duplicate name '{name}'"

/-- Why a text gives no design: it is no snapshot, or the snapshot describes none. -/
inductive LoadError where
  | malformed
  | invalid (error : SnapshotError)
  deriving DecidableEq, Repr

namespace Snapshot

def TimingSpec.timing (spec : TimingSpec) : PinTiming where
  arrival := spec.arrival
  slew := spec.slew
  load := spec.load
  isRising := spec.rising
  slack := spec.slack

/-- A stage as it is written, on top of what its pin says. -/
def StageSpec.over (spec : StageSpec) (stage : PathStage) : PathStage :=
  { stage with
    isClock := spec.clock.getD stage.isClock, isRising := spec.rising
    slew := spec.slew, load := spec.load }

def PathSpec.summary (spec : PathSpec) (stages : List PathStage) : PathSummary where
  startClock := spec.startClock
  endClock := spec.endClock
  slack := spec.slack.getD .infinity
  arrival := spec.arrival
  required := spec.required
  pathDelay := spec.pathDelay.getD (Design.stageSpan stages)

end Snapshot

namespace Design

open Snapshot

abbrev Loaded (α : Type) := Except SnapshotError α

def lookUpPin (d : Design) (name : String) : Loaded PinId :=
  match d.findPin name with
  | some pin => .ok pin
  | none => .error (.unknownPin name)

def lookUpCorner (d : Design) (name : String) : Loaded CornerId :=
  match d.findCorner name with
  | some corner => .ok corner
  | none => .error (.unknownCorner name)

/-- Gives a pin its place on the clock network and its shapes. -/
def withAttributes (d : Design) (pin : PinId) (spec : PinSpec) : Design :=
  let d := if spec.clock then d.markClock pin else d
  spec.shapes.foldl (addShape · pin) d

def loadBlockPin (d : Design) (spec : PinSpec) : Loaded Design :=
  if (d.findPin spec.name).isSome then .error (.duplicateName spec.name)
  else
    let (pin, d) := d.addBlockPin spec.name spec.direction
    .ok (d.withAttributes pin spec)

def loadInstancePin (inst : InstanceId) (instName : String) (d : Design) (spec : PinSpec) :
    Loaded Design :=
  let fullName := instName ++ "/" ++ spec.name
  if (d.findPin fullName).isSome then .error (.duplicateName fullName)
  else
    let (pin, d) := d.addInstancePin inst instName spec.name spec.direction
    .ok (d.withAttributes pin spec)

def loadArc (instName : String) (d : Design) (arc : String × String) : Loaded Design := do
  let input ← d.lookUpPin (instName ++ "/" ++ arc.1)
  let output ← d.lookUpPin (instName ++ "/" ++ arc.2)
  return (d.addArc? input output).getD d

def loadInstance (d : Design) (spec : InstanceSpec) : Loaded Design :=
  if (d.findInstance spec.name).isSome then .error (.duplicateName spec.name)
  else do
    let (inst, d) := d.addInstance spec.name spec.master
    let d := if spec.sequential then d.markSequential inst else d
    let d ← spec.pins.foldlM (loadInstancePin inst spec.name) d
    spec.arcs.foldlM (loadArc spec.name) d

/-- The pins of a net, which may not list one twice. -/
def netMembers (d : Design) : List PinId → List String → Loaded (List PinId)
  | members, [] => .ok members
  | members, name :: rest => do
    let pin ← d.lookUpPin name
    if members.contains pin then .error (.duplicateName name)
    else d.netMembers (members ++ [pin]) rest

def loadNet (d : Design) (spec : NetSpec) : Loaded Design := do
  return (d.addNet spec.name (← d.netMembers [] spec.pins)).2

/-- Loads nets, none of which may have the name of one before it. -/
def loadNets (d : Design) : Std.TreeSet String → List NetSpec → Loaded Design
  | _, [] => .ok d
  | names, spec :: rest => do
    if names.contains spec.name then .error (.duplicateName spec.name)
    else (← d.loadNet spec).loadNets (names.insert spec.name) rest

def loadTiming (d : Design) (spec : TimingSpec) : Loaded Design := do
  let pin ← d.lookUpPin spec.pin
  let corner ← d.lookUpCorner spec.corner
  return d.setTiming pin ⟨corner, spec.minMax⟩ spec.timing

def loadStage (d : Design) (spec : StageSpec) : Loaded PathStage :=
  match (d.findPin spec.pin).bind (d.stage? · spec.arrival spec.delay) with
  | none => .error (.unknownPin spec.pin)
  | some stage => .ok (spec.over stage)

def loadStages (d : Design) : List StageSpec → Loaded (List PathStage)
  | [] => .ok []
  | spec :: rest => do
    let stage ← d.loadStage spec
    return stage :: (← d.loadStages rest)

def loadPath (d : Design) (spec : PathSpec) : Loaded Design := do
  let corner ← d.lookUpCorner spec.corner
  let stages ← d.loadStages spec.stages
  let (launch, d) := d.addPath ⟨corner, spec.minMax⟩ (spec.summary stages) stages
  match spec.capture with
  | none => return d
  | some capture =>
    let stages ← d.loadStages capture.stages
    return ((d.addCapture? launch capture.offset stages).map Prod.snd).getD d

/-- The design that a snapshot describes. -/
def ofSnapshot (s : Snapshot) : Loaded Design := do
  let d := s.corners.foldl (fun d name => (d.addCorner name).2) empty
  let d ← s.blockPins.foldlM loadBlockPin d
  let d ← s.instances.foldlM loadInstance d
  let d ← d.loadNets ∅ s.nets
  let d ← s.timing.foldlM loadTiming d
  s.paths.foldlM loadPath d

/-- The design that a JSON text describes. -/
def ofText (text : String) : Except LoadError Design :=
  match (Json.read? text).bind Snapshot.decode with
  | none => .error .malformed
  | some s =>
    match ofSnapshot s with
    | .error e => .error (.invalid e)
    | .ok d => .ok d

end Design

end TimingExplorer
