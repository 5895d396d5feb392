import TimingExplorer.Node.Arena
import TimingExplorer.Record.Stages

/-!
Path records. A record holds the nodes of a path, launch side, and those of the clock path that it
is checked against, capture side, in one arena. Populating a side replaces its nodes and leaves the
other side's alone; it fails before it changes anything.
-/

namespace TimingExplorer

open Document

structure PathRecord where
  nodes : NodeArena := .empty
  /-- The launch side, source to sink. -/
  launchIds : List NodeId := []
  /-- The capture side, source to sink. -/
  captureIds : List NodeId := []
  startClock : Option String := none
  endClock : Option String := none
  slack : Double := 0
  pathDelay : Double := 0
  arrival : Double := 0
  required : Double := 0
  /-- Where the clock part of the launch side ended when that was last determined. -/
  launchClockEnd : Int := -1
  /-- Where the clock part of the capture side ended when that was last determined. -/
  captureClockEnd : Int := -1

/-- The two sequences of a record. -/
inductive Side where
  | launch
  | capture
  deriving DecidableEq, Repr

/-- What a caller may set of a record as a whole. -/
inductive Setting where
  | startClock (name : Option String)
  | endClock (name : Option String)
  | slack (value : Double)
  | pathDelay (value : Double)
  | arrival (value : Double)
  | required (value : Double)

namespace PathRecord

def empty : PathRecord := {}

def set (r : PathRecord) : Setting → PathRecord
  | .startClock name => { r with startClock := name }
  | .endClock name => { r with endClock := name }
  | .slack value => { r with slack := value }
  | .pathDelay value => { r with pathDelay := value }
  | .arrival value => { r with arrival := value }
  | .required value => { r with required := value }

/-- Takes over what holds of the path as a whole. -/
def applySummary (r : PathRecord) (s : PathSummary) : PathRecord :=
  { r with
    startClock := s.startClock, endClock := s.endClock, slack := s.slack
    arrival := s.arrival, required := s.required, pathDelay := s.pathDelay }

def ids (r : PathRecord) : Side → List NodeId
  | .launch => r.launchIds
  | .capture => r.captureIds

def sideNodes (r : PathRecord) (side : Side) : List PathNode := (r.ids side).filterMap r.nodes.get?

def launchNodes (r : PathRecord) : List PathNode := r.sideNodes .launch

def captureNodes (r : PathRecord) : List PathNode := r.sideNodes .capture

/-- The terminals of the stages, or the first pin that has none. -/
def resolve (db : DesignDatabase) : List PathStage → QueryResult (List (PathStage × Terminal))
  | [] => .ok []
  | stage :: rest =>
    match db.terminal stage.pin with
    | none => .error (.unmappedPin stage.pin)
    | some terminal => (resolve db rest).map ((stage, terminal) :: ·)

/-- The node of a stage, its arrival moved by the offset. -/
def stageNode (engine : TimingEngine) (offset : Double) (stage : PathStage) (terminal : Terminal) :
    PathNode :=
  let flags : NodeFlags :=
    { isClock := stage.isClock, isRising := stage.isRising, isSink := stage.isSink }
  let values : NodeValues :=
    { arrival := stage.arrival, delay := stage.delay, slew := stage.slew, load := stage.load }
  let fanout := if stage.isSink then 0 else engine.fanout stage.pin
  (PathNode.withValues terminal stage.pin flags values fanout).shiftArrival offset

/-- The nodes that a walk along a path gives. -/
def stageNodes (ctx : Context) (path : PathId) (offset : Double) (clockExpanded : Bool) :
    QueryResult (List PathNode) :=
  match ctx.engine.pathStages path with
  | none => .error (.unknownPath path)
  | some stages =>
    (resolve ctx.database (keptStages clockExpanded stages)).map
      (List.map fun (stage, terminal) => stageNode ctx.engine offset stage terminal)

/-- Whether the second node leaves the instance that the first one enters. -/
def crossesInstance (db : DesignDatabase) (input output : PathNode) : Bool :=
  input.flags.isSink && output.isSource &&
    match input.instance? db, output.instance? db with
    | some x, some y => x = y
    | _, _ => false

/-- Makes each input point at the output that follows it on the same instance, and back. -/
def linkInstances (db : DesignDatabase) (nodes : NodeArena) : List NodeId → NodeArena
  | input :: output :: rest =>
    let linked :=
      match nodes.get? input, nodes.get? output with
      | some a, some b =>
        if crossesInstance db a b then
          ((nodes.setInstanceNode input output).2.setInstanceNode output input).2
        else nodes
      | _, _ => nodes
    linkInstances db linked (output :: rest)
  | _ => nodes

/-- Makes the given ids one side of the record and drops the nodes of that side so far. -/
def replaceSide (r : PathRecord) (side : Side) (fresh : List NodeId) : PathRecord :=
  let kept := match side with
    | .launch => r.captureIds
    | .capture => r.launchIds
  let (ids, nodes) := r.nodes.compact (kept ++ fresh)
  let keptIds := ids.take kept.length
  let freshIds := ids.drop kept.length
  match side with
  | .launch => { r with nodes, launchIds := freshIds, captureIds := keptIds }
  | .capture => { r with nodes, launchIds := keptIds, captureIds := freshIds }

/-- Puts the nodes of a walk in place of one side. -/
def installSide (r : PathRecord) (db : DesignDatabase) (side : Side) (fresh : List PathNode) :
    PathRecord :=
  let (ids, nodes) := r.nodes.allocAll fresh
  { r with nodes := linkInstances db nodes ids }.replaceSide side ids

/-- Walks a path and makes it the launch side. -/
def populateLaunch (r : PathRecord) (ctx : Context) (path : PathId) (clockExpanded : Bool) :
    QueryResult PathRecord :=
  (stageNodes ctx path 0 clockExpanded).map (r.installSide ctx.database .launch)

/-- Walks a clock path and makes it the capture side, its arrivals moved by the offset. -/
def populateCapture (r : PathRecord) (ctx : Context) (path : PathId) (offset : Double)
    (clockExpanded : Bool) : QueryResult PathRecord :=
  (stageNodes ctx path offset clockExpanded).map (r.installSide ctx.database .capture)

/-- The last node of the launch side on each pin. -/
def launchByPin (r : PathRecord) : Std.TreeMap PinId NodeId :=
  .ofList (r.launchIds.filterMap fun id => (r.nodes.get? id).map fun n => (n.pin, id))

/-- Pairs every capture node with the last launch node on the same pin, if there is one. Those are
the pins that the two clocks share. -/
def pairCommonNodes (r : PathRecord) : PathRecord :=
  let launch := r.launchByPin
  let pairs := r.captureIds.filterMap fun id =>
    (r.nodes.get? id).bind fun n => launch[n.pin]?.map fun launchId => (launchId, id)
  { r with nodes := pairs.foldl (fun nodes (x, y) => (nodes.pair x y).2) r.nodes }

/-- Determines where the clock parts end. -/
def computeClockEnds (r : PathRecord) : PathRecord :=
  { r with
    launchClockEnd := clockEndIndex r.launchNodes, captureClockEnd := clockEndIndex r.captureNodes }

/-- Gives the record's slack to every launch node. -/
def spreadSlack (r : PathRecord) : PathRecord :=
  { r with
    nodes := r.launchIds.foldl (fun nodes id => nodes.modify id (·.setSlack r.slack)) r.nodes }

/-- The label of an end of a path: the instance's name, or else the node's label. -/
def stageName (db : DesignDatabase) (n : PathNode) : String :=
  ((n.instance? db).bind db.instanceName).getD (n.label db false)

def startStageName (r : PathRecord) (db : DesignDatabase) : String :=
  (r.launchNodes.head?.map (stageName db)).getD ""

def endStageName (r : PathRecord) (db : DesignDatabase) : String :=
  (r.launchNodes.getLast?.map (stageName db)).getD ""

def encode (r : PathRecord) : Value :=
  .object [
    ("nodes", r.nodes.encode),
    ("path_nodes", Encode.list Id.encode r.launchIds),
    ("capture_nodes", Encode.list Id.encode r.captureIds),
    ("start_clock", Encode.nullable .string r.startClock),
    ("end_clock", Encode.nullable .string r.endClock),
    ("slack", Encode.real r.slack),
    ("path_delay", Encode.real r.pathDelay),
    ("arrival_time", Encode.real r.arrival),
    ("required_time", Encode.real r.required),
    ("clk_path_end_index", .integer r.launchClockEnd),
    ("clk_capture_end_index", .integer r.captureClockEnd)]

end PathRecord

end TimingExplorer
