import TimingExplorer.Document.Entity
import TimingExplorer.Engine

/-!
Nodes: one pin visited on a path or gathered into a cone. A node without values says only where the
pin lies; its quantities are then zero. Links between nodes are ids of the arena that holds them.
-/

namespace TimingExplorer

open Document

/-- A pin's role at a node. -/
structure NodeFlags where
  isClock : Bool := false
  isRising : Bool := false
  /-- The pin is a load of its net; otherwise it is a source. -/
  isSink : Bool := false
  deriving DecidableEq, Repr

structure NodeValues where
  arrival : Double := 0
  delay : Double := 0
  slew : Double := 0
  load : Double := 0

structure PathNode where
  terminal : Terminal
  pin : PinId
  flags : NodeFlags
  hasValues : Bool
  values : NodeValues
  /-- Slack of the path, or of the pin for a node of a cone. -/
  slack : Double
  /-- How many loads the pin drives. -/
  fanout : Nat
  /-- Nodes on the same net, or on the same pin of the other path. -/
  paired : Std.TreeSet NodeId
  /-- The node at the other end of a cell arc. -/
  instanceNode : Option NodeId

namespace PathNode

/-- A node without values and links. -/
def placeholder (terminal : Terminal) (pin : PinId) (flags : NodeFlags) : PathNode where
  terminal := terminal
  pin := pin
  flags := flags
  hasValues := false
  values := {}
  slack := 0
  fanout := 0
  paired := ∅
  instanceNode := none

/-- A node with values and without links. -/
def withValues (terminal : Terminal) (pin : PinId) (flags : NodeFlags) (values : NodeValues)
    (fanout : Nat) : PathNode :=
  { placeholder terminal pin flags with hasValues := true, values, fanout }

/-- The node of one pin as the engine sees it now: a load of its net is a sink and drives nothing.
A pin without timing gives a node without values. -/
def ofPin (ctx : Context) (pin : PinId) (point : AnalysisPoint) : QueryResult PathNode :=
  if ctx.engine.containsPin pin then
    match ctx.database.terminal pin with
    | none => .error (.unmappedPin pin)
    | some terminal =>
      let isSink := ctx.engine.isLoadPin pin
      let isClock := ctx.engine.isClockPin pin
      let fanout := if isSink then 0 else ctx.engine.fanout pin
      match ctx.engine.pinTiming pin point with
      | some timing =>
        let values : NodeValues :=
          { arrival := timing.arrival, slew := timing.slew, load := timing.load }
        let flags : NodeFlags := { isClock, isRising := timing.isRising, isSink }
        .ok { withValues terminal pin flags values fanout with slack := timing.slack.getD 0 }
      | none => .ok { placeholder terminal pin { isClock, isSink } with fanout }
  else .error (.unknownPin pin)

def isSource (n : PathNode) : Bool := !n.flags.isSink

/-- The values, if the node has any. -/
def values? (n : PathNode) : Option NodeValues := if n.hasValues then some n.values else none

/-- Moves the arrival in time; a node without values stays as it is. -/
def shiftArrival (n : PathNode) (offset : Double) : PathNode :=
  if n.hasValues then { n with values.arrival := n.values.arrival + offset } else n

def setSlack (n : PathNode) (slack : Double) : PathNode := { n with slack }

def setFanout (n : PathNode) (fanout : Nat) : PathNode := { n with fanout }

/-- Drops the pairs of this node; its partners keep theirs. -/
def clearPaired (n : PathNode) : PathNode := { n with paired := ∅ }

/-- The target with the role, values, slack and fanout of another node. It stays the node of its
own pin, with its own links. -/
def copyData (source target : PathNode) : PathNode :=
  { target with
    flags := source.flags, hasValues := source.hasValues, values := source.values
    slack := source.slack, fanout := source.fanout }

/-- The instance that the pin belongs to. -/
def instance? (n : PathNode) (db : DesignDatabase) : Option InstanceId :=
  db.pinInstance n.terminal

/-- The label of a node: the instance's name and the pin's with a slash between them, and if asked
for the name of the library cell in brackets; for a terminal of the block just its name. -/
def label (n : PathNode) (db : DesignDatabase) (withMaster : Bool) : String :=
  let pinName := (db.pinName n.terminal).getD ""
  match n.instance? db with
  | none => pinName
  | some inst =>
    let name := (db.instanceName inst).getD "" ++ "/" ++ pinName
    match (if withMaster then db.instanceMaster inst else none) with
    | some master => name ++ " (" ++ master ++ ")"
    | none => name

/-- The name of the pin's net; empty for a floating pin. -/
def netName (n : PathNode) (db : DesignDatabase) : String :=
  ((db.pinNet n.terminal).bind db.netName).getD ""

/-- The rectangle around all shapes of the pin. -/
def boundingBox? (n : PathNode) (db : DesignDatabase) : Option Rect :=
  Rect.bounding? (db.pinShapes n.terminal)

/-- The shape of the pin with the largest area. -/
def largestBox? (n : PathNode) (db : DesignDatabase) : Option Rect :=
  Rect.largest? (db.pinShapes n.terminal)

def encode (n : PathNode) : Value :=
  .object [
    ("pin", n.terminal.encode),
    ("sta_pin", n.pin.encode),
    ("is_clock", .bool n.flags.isClock),
    ("is_rising", .bool n.flags.isRising),
    ("is_sink", .bool n.flags.isSink),
    ("has_values", .bool n.hasValues),
    ("arrival", Encode.real n.values.arrival),
    ("delay", Encode.real n.values.delay),
    ("slew", Encode.real n.values.slew),
    ("load", Encode.real n.values.load),
    ("path_slack", Encode.real n.slack),
    ("fanout", Encode.nat n.fanout),
    ("paired_nodes", Encode.list Id.encode n.paired.toList),
    ("instance_node", Encode.nullable Id.encode n.instanceNode)]

end PathNode

/-- Where the clock part of a sequence of nodes ends: at the first node that is not on the clock
network, or at the end of the sequence. An empty sequence has no such place, which -1 stands for.
Sequences are taken to be shorter than 2^31, so that the index has a sign and 31 bits. -/
def clockEndIndex (nodes : List PathNode) : Int :=
  if nodes.isEmpty then -1 else nodes.findIdx (!·.flags.isClock)

end TimingExplorer
