import Std.Data.TreeMap
import TimingExplorer.Arena
import TimingExplorer.Engine

/-!
A design held in memory: a flat netlist, timing values of pins, and paths that were found elsewhere.
It answers as a timing engine, except for the search for paths, and as a design database.
-/

namespace TimingExplorer

/-- Direction of a signal at a pin: of an instance seen from outside, of the block from inside. -/
inductive PinDirection where
  | input
  | output
  | inout
  deriving DecidableEq, Repr

namespace Design

structure Instance where
  name : String
  master : String
  /-- Only clock pins reach the outputs. -/
  sequential : Bool := false
  pins : List PinId := []
  /-- Arcs from input to output; without any, they follow from the directions of the pins. -/
  arcs : List (PinId × PinId) := []

structure Pin where
  /-- The name without the instance's. -/
  name : String
  inst : Option InstanceId
  terminal : Terminal
  direction : PinDirection
  isClock : Bool := false
  net : Option NetId := none
  shapes : List Rect := []

namespace Pin

/-- An output of an instance drives its net, and so does an input of the block. -/
def drives (p : Pin) : Bool :=
  match p.direction with
  | .inout => true
  | .output => p.inst.isSome
  | .input => p.inst.isNone

/-- An input of an instance is driven by its net, and so is an output of the block. -/
def receives (p : Pin) : Bool :=
  match p.direction with
  | .inout => true
  | .input => p.inst.isSome
  | .output => p.inst.isNone

end Pin

structure Net where
  name : String
  pins : List PinId

structure StoredPath where
  point : AnalysisPoint
  summary : PathSummary
  stages : List PathStage
  capture : Option CapturePath := none
  /-- A capture path is not found by a search, only through the path that it belongs to. -/
  searchable : Bool

end Design

structure Design where
  corners : Arena .corner String := .empty
  instances : Arena .cell Design.Instance := .empty
  pins : Arena .pin Design.Pin := .empty
  instanceTerminals : Arena .instanceTerminal PinId := .empty
  blockTerminals : Arena .blockTerminal PinId := .empty
  nets : Arena .net Design.Net := .empty
  /-- Timing of pins; of several entries for one analysis point the first counts. -/
  timing : Std.TreeMap PinId (List (AnalysisPoint × PinTiming)) := ∅
  paths : Arena .path Design.StoredPath := .empty
  /-- Pins by full name; of several pins with one name the last. -/
  pinNames : Std.TreeMap String PinId := ∅
  /-- Instances by name; of several with one name the last. -/
  instanceNames : Std.TreeMap String InstanceId := ∅

namespace Design

def empty : Design := {}

instance : Inhabited Design := ⟨empty⟩

def findPin (d : Design) (name : String) : Option PinId := d.pinNames[name]?

def findInstance (d : Design) (name : String) : Option InstanceId := d.instanceNames[name]?

def findCorner (d : Design) (name : String) : Option CornerId := d.corners.find? (· == name)

def defaultCorner (d : Design) : Option CornerId :=
  if d.corners.isEmpty then none else some ⟨0⟩

/-- The full name of a pin: its instance's name, a slash and its own, or just its own. -/
def fullName (d : Design) (pin : PinId) : Option String :=
  (d.pins.get? pin).map fun p =>
    match p.inst.bind d.instances.get? with
    | some inst => inst.name ++ "/" ++ p.name
    | none => p.name

def pinTiming (d : Design) (pin : PinId) (point : AnalysisPoint) : Option PinTiming :=
  (d.timing.getD pin []).lookup point

def pinNet (d : Design) (pin : PinId) : Option NetId := (d.pins.get? pin).bind (·.net)

/-- The members of a net that pass a test, in order. -/
def netPins (d : Design) (net : NetId) (test : Pin → Bool) : List PinId :=
  match d.nets.get? net with
  | none => []
  | some n => n.pins.filter fun pin => (d.pins.get? pin).any test

def netDrivers (d : Design) (net : NetId) : List PinId := d.netPins net Pin.drives

def netLoads (d : Design) (net : NetId) : List PinId := d.netPins net Pin.receives

def isLoadPin (d : Design) (pin : PinId) : Bool := (d.pins.get? pin).any (!·.drives)

def isClockPin (d : Design) (pin : PinId) : Bool := (d.pins.get? pin).any (·.isClock)

/-- Whether a signal may enter an arc here: at a sequential cell only at a clock pin. -/
def startsArc (inst : Instance) (p : Pin) : Bool := p.receives && (!inst.sequential || p.isClock)

/-- The ends of arcs that begin, or the beginnings of arcs that end, at a pin of an instance. -/
def writtenArcs (arcs : List (PinId × PinId)) (pin : PinId) : Direction → List PinId
  | .forward => arcs.filterMap fun (input, output) => if input = pin then some output else none
  | .backward => arcs.filterMap fun (input, output) => if output = pin then some input else none

/-- The arcs of an instance without written ones: from every pin where an arc may start to every
other pin that drives. -/
def derivedArcs (d : Design) (inst : Instance) (pin : PinId) (p : Pin) :
    Direction → List PinId
  | .forward =>
    if startsArc inst p then
      inst.pins.filter fun other => other ≠ pin && (d.pins.get? other).any Pin.drives
    else []
  | .backward =>
    if p.drives then
      inst.pins.filter fun other => other ≠ pin && (d.pins.get? other).any (startsArc inst)
    else []

/-- The pins that the arcs of a pin's cell lead to. A pin of the block has none. -/
def instanceArcs (d : Design) (pin : PinId) (direction : Direction) : List PinId :=
  match d.pins.get? pin with
  | none => []
  | some p =>
    match p.inst.bind d.instances.get? with
    | none => []
    | some inst =>
      if inst.arcs.isEmpty then d.derivedArcs inst pin p direction
      else writtenArcs inst.arcs pin direction

/-- The pin of a terminal. -/
def timingPin (d : Design) : Terminal → Option PinId
  | .ofInstance id => d.instanceTerminals.get? id
  | .ofBlock id => d.blockTerminals.get? id

def terminalPin (d : Design) (t : Terminal) : Option Pin := (d.timingPin t).bind d.pins.get?

/-- The design as a database. -/
def database (d : Design) : DesignDatabase where
  terminal pin := (d.pins.get? pin).map (·.terminal)
  timingPin := d.timingPin
  pinName t := (d.terminalPin t).map (·.name)
  pinShapes t := ((d.terminalPin t).map (·.shapes)).getD []
  pinInstance t := (d.terminalPin t).bind (·.inst)
  pinNet t := (d.terminalPin t).bind (·.net)
  instanceName inst := (d.instances.get? inst).map (·.name)
  instanceMaster inst := (d.instances.get? inst).map (·.master)
  netName net := (d.nets.get? net).map (·.name)

end Design

end TimingExplorer
