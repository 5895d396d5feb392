import TimingExplorer.Design.Load
import TimingExplorer.Proofs.Design.Tables

/-!
Loading as a sequence of building steps. A replay looks names up as the loading does and leaves
everything else to `build?`, so it has no result at all once a step names what the design does not
have, or meets a design in which a pin says that it belongs to such a thing.
-/
namespace TimingExplorer.Design

open Snapshot

/-- The outcome of a loading that is done by building steps, or none if a step fails. -/
abbrev Replay (α : Type) := ExceptT SnapshotError Option α

def Replay.of {α : Type} (r : Loaded α) : Replay α := ExceptT.mk (some r)

/-- The design has all nets and instances that its pins say they belong to. -/
def closed (d : Design) : Bool :=
  d.pins.toList.all fun p => p.net.all d.nets.contains && p.inst.all d.instances.contains

/-- Building steps, each on a closed design. -/
def perform (d : Design) (steps : List BuildStep) : Replay Design :=
  ExceptT.lift (steps.foldlM (fun d step => if d.closed then d.build? step else none) d)

def attributeSteps (pin : PinId) (spec : PinSpec) : List BuildStep :=
  (if spec.clock then [.markClock pin] else []) ++ spec.shapes.map (.shape pin)

def replayBlockPin (d : Design) (spec : PinSpec) : Replay Design :=
  if (d.findPin spec.name).isSome then .of (.error (.duplicateName spec.name))
  else d.perform (.blockPin spec.name spec.direction :: attributeSteps d.pins.nextId spec)

def replayInstancePin (inst : InstanceId) (instName : String) (d : Design) (spec : PinSpec) :
    Replay Design :=
  let fullName := instName ++ "/" ++ spec.name
  if (d.findPin fullName).isSome then .of (.error (.duplicateName fullName))
  else d.perform (.pin inst spec.name spec.direction :: attributeSteps d.pins.nextId spec)

def replayArc (instName : String) (d : Design) (arc : String × String) : Replay Design := do
  let input ← .of (d.lookUpPin (instName ++ "/" ++ arc.1))
  let output ← .of (d.lookUpPin (instName ++ "/" ++ arc.2))
  d.perform [.arc input output]

def instanceSteps (inst : InstanceId) (spec : InstanceSpec) : List BuildStep :=
  .inst spec.name spec.master :: if spec.sequential then [.sequential inst] else []

def replayInstance (d : Design) (spec : InstanceSpec) : Replay Design :=
  if (d.findInstance spec.name).isSome then .of (.error (.duplicateName spec.name))
  else do
    let inst := d.instances.nextId
    let d ← d.perform (instanceSteps inst spec)
    let d ← spec.pins.foldlM (replayInstancePin inst spec.name) d
    spec.arcs.foldlM (replayArc spec.name) d

def replayNet (d : Design) (spec : NetSpec) : Replay Design := do
  d.perform [.net spec.name (← .of (d.netMembers [] spec.pins))]

def replayNets (d : Design) : Std.TreeSet String → List NetSpec → Replay Design
  | _, [] => .of (.ok d)
  | names, spec :: rest => do
    if names.contains spec.name then .of (.error (.duplicateName spec.name))
    else (← d.replayNet spec).replayNets (names.insert spec.name) rest

def replayTiming (d : Design) (spec : TimingSpec) : Replay Design := do
  let pin ← .of (d.lookUpPin spec.pin)
  let corner ← .of (d.lookUpCorner spec.corner)
  d.perform [.timing pin ⟨corner, spec.minMax⟩ spec.timing]

def replayStage (d : Design) (spec : StageSpec) : Replay PathStage := do
  let pin ← .of (d.lookUpPin spec.pin)
  return spec.over (← ExceptT.lift (d.stage? pin spec.arrival spec.delay))

def replayStages (d : Design) : List StageSpec → Replay (List PathStage)
  | [] => .of (.ok [])
  | spec :: rest => do
    let stage ← d.replayStage spec
    return stage :: (← d.replayStages rest)

def replayPath (d : Design) (spec : PathSpec) : Replay Design := do
  let corner ← .of (d.lookUpCorner spec.corner)
  let stages ← d.replayStages spec.stages
  let launch := d.paths.nextId
  let d ← d.perform [.path ⟨corner, spec.minMax⟩ (spec.summary stages) stages]
  match spec.capture with
  | none => return d
  | some capture =>
    let stages ← d.replayStages capture.stages
    d.perform [.capture launch capture.offset stages]

def replay (s : Snapshot) : Replay Design := do
  let d ← empty.perform (s.corners.map .corner)
  let d ← s.blockPins.foldlM replayBlockPin d
  let d ← s.instances.foldlM replayInstance d
  let d ← d.replayNets ∅ s.nets
  let d ← s.timing.foldlM replayTiming d
  s.paths.foldlM replayPath d

/-- What comes of building steps on an empty design. -/
def Buildable (d : Design) : Prop := ∃ steps, empty.buildAll? steps = some d

variable {d e : Design} {pin : PinId} {steps : List BuildStep}

theorem Buildable.empty : Design.empty.Buildable := ⟨[], rfl⟩

theorem Buildable.grow (built : d.Buildable) (done : d.buildAll? steps = some e) : e.Buildable := by
  obtain ⟨earlier, start⟩ := built
  refine ⟨earlier ++ steps, ?_⟩
  rw [buildAll?, List.foldlM_append]
  exact Option.bind_eq_some_iff.mpr ⟨d, start, done⟩

theorem Buildable.wired (built : d.Buildable) : d.Wired :=
  built.elim fun _ done => Wired.buildAll? done

theorem buildAll?_singleton (step : BuildStep) : d.buildAll? [step] = d.build? step := by
  simp [buildAll?]

theorem contains_of_mem {kind : IdKind} {α : Type} {a : Arena kind α} {id : Id kind}
    {view : α → List PinId} (listed : pin ∈ (a.get? id).elim [] view) : a.contains id = true := by
  rw [← Arena.isSome_get?]
  cases found : a.get? id with
  | none => simp [found] at listed
  | some _ => rfl

/-- On a wired design every net and every instance that a pin names lists it, so it exists. -/
theorem Wired.closed (wired : d.Wired) : d.closed = true := by
  refine List.all_eq_true.mpr fun p member => ?_
  obtain ⟨i, found⟩ := List.mem_iff_getElem?.mp member
  rw [Arena.getElem?_toList] at found
  rw [Bool.and_eq_true, Option.all_eq_true, Option.all_eq_true]
  constructor
  · intro net attached
    have here : d.pinNet ⟨i⟩ = some net := by rwa [pinNet, found]
    exact contains_of_mem ((wired.mem_members _ net).mpr here)
  · intro inst placed
    have here : d.pinCell ⟨i⟩ = some inst := by rwa [pinCell, found]
    exact contains_of_mem ((wired.mem_cellPins _ inst).mpr here)

theorem Buildable.perform_eq (built : d.Buildable) (done : d.buildAll? steps = some e) :
    d.perform steps = ExceptT.lift (some e) := by
  refine congrArg ExceptT.lift ?_
  induction steps generalizing d with
  | nil => exact done
  | cons step rest ih =>
    obtain ⟨next, first, later⟩ := Option.bind_eq_some_iff.mp done
    rw [List.foldlM_cons, if_pos built.wired.closed, first]
    exact ih (built.grow ((buildAll?_singleton step).trans first)) later

theorem buildAll?_cons {next : Design} {step : BuildStep} (first : d.build? step = some next) :
    d.buildAll? (step :: steps) = next.buildAll? steps := by
  rw [buildAll?, List.foldlM_cons, first]
  rfl

/-! What a new pin or instance is once all that is written of it has been built. -/

/-- A pin with the attributes that are written for it. -/
def Pin.attributed (p : Pin) (spec : PinSpec) : Pin :=
  { p with isClock := p.isClock || spec.clock, shapes := p.shapes ++ spec.shapes }

/-- An instance of which only its head has been read. -/
def instanceAlone (spec : InstanceSpec) : Instance :=
  { name := spec.name, master := spec.master, sequential := spec.sequential }

theorem markSequential_addInstance (d : Design) (spec : InstanceSpec) :
    (if spec.sequential then
      (d.addInstance spec.name spec.master).2.markSequential d.instances.nextId
    else (d.addInstance spec.name spec.master).2) =
      { (d.addInstance spec.name spec.master).2 with
        instances := d.instances.push (instanceAlone spec) } := by
  cases sequential : spec.sequential with
  | false => simp [instanceAlone, addInstance, sequential]
  | true => simp [instanceAlone, addInstance, markSequential, Arena.modify_push_nextId, sequential]

theorem buildAll?_instanceSteps (d : Design) (spec : InstanceSpec) :
    d.buildAll? (instanceSteps d.instances.nextId spec) =
      some { (d.addInstance spec.name spec.master).2 with
        instances := d.instances.push (instanceAlone spec) } := by
  rw [← markSequential_addInstance, instanceSteps, buildAll?_cons rfl]
  cases spec.sequential with
  | false => rfl
  | true =>
    have known : (d.addInstance spec.name spec.master).2.instances.contains
        d.instances.nextId = true := by
      rw [addInstance, ← Arena.isSome_get?, Arena.get?_push, if_pos rfl]
      rfl
    exact (buildAll?_singleton _).trans (if_pos known)

theorem foldl_addShape_push (shapes : List Rect) (pins : Arena .pin Pin) (p : Pin) :
    shapes.foldl (addShape · pins.nextId) { d with pins := pins.push p } =
      { d with pins := pins.push { p with shapes := p.shapes ++ shapes } } := by
  induction shapes generalizing p with
  | nil => simp
  | cons shape rest ih =>
    rw [List.foldl_cons, addShape, Arena.modify_push_nextId, ih]
    simp

theorem withAttributes_of_push {pins : Arena .pin Pin} {p : Pin} (new : d.pins = pins.push p)
    (spec : PinSpec) :
    d.withAttributes pins.nextId spec = { d with pins := pins.push (p.attributed spec) } := by
  have whole : d = { d with pins := pins.push p } := by rw [← new]
  rw [whole]
  unfold withAttributes markClock
  cases clock : spec.clock with
  | false => simp [foldl_addShape_push, Pin.attributed, clock]
  | true => simp [Arena.modify_push_nextId, foldl_addShape_push, Pin.attributed, clock]

theorem buildAll?_shapes (shapes : List Rect) (known : d.pins.contains pin = true) :
    d.buildAll? (shapes.map (.shape pin)) = some (shapes.foldl (addShape · pin) d) := by
  induction shapes generalizing d with
  | nil => rfl
  | cons shape rest ih =>
    have first : d.build? (.shape pin shape) = some (d.addShape pin shape) := if_pos known
    have still : (d.addShape pin shape).pins.contains pin = true := by
      rwa [addShape, Arena.contains_iff, Arena.size_modify, ← Arena.contains_iff]
    rw [List.map_cons, buildAll?_cons first, ih still, List.foldl_cons]

theorem buildAll?_attributeSteps (spec : PinSpec) (known : d.pins.contains pin = true) :
    d.buildAll? (attributeSteps pin spec) = some (d.withAttributes pin spec) := by
  unfold attributeSteps withAttributes
  cases spec.clock with
  | false => exact buildAll?_shapes spec.shapes known
  | true =>
    have first : d.build? (.markClock pin) = some (d.markClock pin) := if_pos known
    have still : (d.markClock pin).pins.contains pin = true := by
      rwa [markClock, Arena.contains_iff, Arena.size_modify, ← Arena.contains_iff]
    exact (buildAll?_cons first).trans (buildAll?_shapes spec.shapes still)

theorem buildAll?_of_push {p : Pin} {step : BuildStep} (first : d.build? step = some e)
    (new : e.pins = d.pins.push p) (spec : PinSpec) :
    d.buildAll? (step :: attributeSteps d.pins.nextId spec) =
      some { e with pins := d.pins.push (p.attributed spec) } := by
  have known : e.pins.contains d.pins.nextId = true := by
    rw [new, ← Arena.isSome_get?, Arena.get?_push, if_pos rfl]
    rfl
  rw [buildAll?_cons first, buildAll?_attributeSteps spec known, withAttributes_of_push new]

end TimingExplorer.Design
