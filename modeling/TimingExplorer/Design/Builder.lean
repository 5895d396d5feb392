import TimingExplorer.Design
import TimingExplorer.Double

/-!
Building a design one object at a time. Ids given out stay valid. A function whose name ends in a
question mark takes ids from outside and gives none for an id that the design does not have.
-/

namespace TimingExplorer.Design

/-- The corner of a name, added if it is new. The first corner is the default. -/
def addCorner (d : Design) (name : String) : CornerId × Design :=
  match d.findCorner name with
  | some corner => (corner, d)
  | none => (d.corners.nextId, { d with corners := d.corners.push name })

def addInstance (d : Design) (name master : String) : InstanceId × Design :=
  let inst := d.instances.nextId
  (inst,
    { d with
      instances := d.instances.push { name, master }
      instanceNames := d.instanceNames.insert name inst })

def markSequential (d : Design) (inst : InstanceId) : Design :=
  { d with instances := d.instances.modify inst fun i => { i with sequential := true } }

def markSequential? (d : Design) (inst : InstanceId) : Option Design :=
  if d.instances.contains inst then some (d.markSequential inst) else none

/-- Adds a pin to an instance of the given name. -/
def addInstancePin (d : Design) (inst : InstanceId) (instName name : String)
    (direction : PinDirection) : PinId × Design :=
  let pin := d.pins.nextId
  let terminal := .ofInstance d.instanceTerminals.nextId
  (pin,
    { d with
      pins := d.pins.push { name, inst := some inst, terminal, direction }
      instanceTerminals := d.instanceTerminals.push pin
      pinNames := d.pinNames.insert (instName ++ "/" ++ name) pin
      instances := d.instances.modify inst fun i => { i with pins := i.pins ++ [pin] } })

def addPin? (d : Design) (inst : InstanceId) (name : String) (direction : PinDirection) :
    Option (PinId × Design) :=
  (d.instances.get? inst).map fun i => d.addInstancePin inst i.name name direction

def addBlockPin (d : Design) (name : String) (direction : PinDirection) : PinId × Design :=
  let pin := d.pins.nextId
  let terminal := .ofBlock d.blockTerminals.nextId
  (pin,
    { d with
      pins := d.pins.push { name, inst := none, terminal, direction }
      blockTerminals := d.blockTerminals.push pin
      pinNames := d.pinNames.insert name pin })

/-- Puts a pin on the clock network. -/
def markClock (d : Design) (pin : PinId) : Design :=
  { d with pins := d.pins.modify pin fun p => { p with isClock := true } }

def markClock? (d : Design) (pin : PinId) : Option Design :=
  if d.pins.contains pin then some (d.markClock pin) else none

/-- Adds an input of an instance that is on the clock network. -/
def addClockPin? (d : Design) (inst : InstanceId) (name : String) : Option (PinId × Design) :=
  (d.addPin? inst name .input).map fun (pin, d) => (pin, d.markClock pin)

def addShape (d : Design) (pin : PinId) (shape : Rect) : Design :=
  { d with pins := d.pins.modify pin fun p => { p with shapes := p.shapes ++ [shape] } }

def addShape? (d : Design) (pin : PinId) (shape : Rect) : Option Design :=
  if d.pins.contains pin then some (d.addShape pin shape) else none

/-- Adds an arc to the instance of the pin where it begins. An arc from a pin of the block is
dropped. Where it leads to is not looked at. -/
def addArc? (d : Design) (input output : PinId) : Option Design :=
  (d.pins.get? input).map fun p =>
    match p.inst with
    | none => d
    | some inst =>
      { d with
        instances := d.instances.modify inst fun i =>
          { i with arcs := i.arcs ++ [(input, output)] } }

/-- Moves a pin to a net: the net that it was on so far loses it. -/
def attach (d : Design) (net : NetId) (pin : PinId) : Design :=
  let nets :=
    match d.pinNet pin with
    | none => d.nets
    | some old => d.nets.modify old fun n => { n with pins := n.pins.filter (· ≠ pin) }
  { d with nets, pins := d.pins.modify pin fun p => { p with net := some net } }

/-- Adds a net. Its members leave the nets that they were on; one listed twice is a member once. -/
def addNet (d : Design) (name : String) (pins : List PinId) : NetId × Design :=
  let net := d.nets.nextId
  let members := pins.eraseDups
  let moved := members.foldl (attach · net) d
  (net, { moved with nets := moved.nets.push { name, pins := members } })

def addNet? (d : Design) (name : String) (pins : List PinId) : Option (NetId × Design) :=
  if pins.all d.pins.contains then some (d.addNet name pins) else none

/-- Sets the timing of a pin at one analysis point. -/
def setTiming (d : Design) (pin : PinId) (point : AnalysisPoint) (timing : PinTiming) : Design :=
  { d with timing := d.timing.insert pin ((point, timing) :: d.timing.getD pin []) }

/-- A rising stage on a pin, its role taken from the netlist as it is now. -/
def stage? (d : Design) (pin : PinId) (arrival delay : Double) : Option PathStage :=
  (d.pins.get? pin).map fun p =>
    { pin, isClock := p.isClock, isRising := true, isSink := !p.drives, arrival, delay
      slew := 0, load := 0 }

/-- Stores a path that searches find. -/
def addPath (d : Design) (point : AnalysisPoint) (summary : PathSummary) (stages : List PathStage) :
    PathId × Design :=
  (d.paths.nextId, { d with paths := d.paths.push { point, summary, stages, searchable := true } })

/-- From the arrival at the first stage to that at the last. -/
def stageSpan (stages : List PathStage) : Double :=
  match stages.head?, stages.getLast? with
  | some first, some last => last.arrival - first.arrival
  | _, _ => 0

/-- The capture path of a stored path: both its clocks are the one that captures that path, and it
is unconstrained. -/
def captureOf (base : StoredPath) (stages : List PathStage) : StoredPath where
  point := base.point
  summary :=
    { startClock := base.summary.endClock
      endClock := base.summary.endClock
      slack := .infinity
      arrival := (stages.getLast?.map (·.arrival)).getD 0
      required := 0
      pathDelay := stageSpan stages }
  stages := stages
  searchable := false

/-- Stores the capture path of a path. -/
def addCapture? (d : Design) (launch : PathId) (offset : Double) (stages : List PathStage) :
    Option (PathId × Design) :=
  (d.paths.get? launch).map fun base =>
    let path := d.paths.nextId
    let paths := (d.paths.push (captureOf base stages)).modify launch fun p =>
      { p with capture := some { path, offset } }
    (path, { d with paths })

end TimingExplorer.Design
