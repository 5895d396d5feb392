import TimingExplorer.AnalysisPoint
import TimingExplorer.Double
import TimingExplorer.Rect

/-!
The two sources that queries read. A timing engine knows the timing graph: ranked paths, per-pin
values and connectivity. A design database knows the layout: terminals, their shapes and names. Both
are given by their answers, so any design, or any set of answers at all, can stand behind a query.
-/

namespace TimingExplorer

/-- A bounded search for critical paths. An empty group at an end leaves that end open; the groups
between the ends are to be met in order. -/
structure PathSearch where
  starts : PinSet
  throughs : List PinSet
  ends : PinSet
  point : AnalysisPoint
  /-- At most so many paths. -/
  maxPaths : Nat
  /-- Whether paths without a timing check qualify. -/
  unconstrained : Bool

/-- What holds of a path as a whole. The slack of an unconstrained path is infinite. -/
structure PathSummary where
  startClock : Option String
  endClock : Option String
  slack : Double
  arrival : Double
  required : Double
  pathDelay : Double

/-- One pin on the walk along a path. -/
structure PathStage where
  pin : PinId
  isClock : Bool
  isRising : Bool
  /-- The pin is a load of its net here rather than its driver. -/
  isSink : Bool
  arrival : Double
  delay : Double
  slew : Double
  load : Double

/-- The clock path that a path is checked against, and the shift into that path's time frame. -/
structure CapturePath where
  path : PathId
  offset : Double

/-- Timing of one pin at one analysis point. -/
structure PinTiming where
  arrival : Double
  slew : Double
  load : Double
  isRising : Bool
  slack : Option Double

/-- Which way the timing graph is followed. -/
inductive Direction where
  /-- As signals go: from drivers to loads, and through cells from inputs to outputs. -/
  | forward
  | backward
  deriving DecidableEq, Repr

/-- The answers of a timing engine. -/
structure TimingEngine where
  /-- The corner used when none is named. -/
  defaultCorner : Option CornerId
  findCorner : String → Option CornerId
  cornerName : CornerId → Option String
  /-- Paths that fit a search, most critical first. -/
  findPaths : PathSearch → List PathId
  pathSummary : PathId → Option PathSummary
  /-- The stages of a path, source to sink. -/
  pathStages : PathId → Option (List PathStage)
  capturePath : PathId → Option CapturePath
  pinTiming : PinId → AnalysisPoint → Option PinTiming
  containsPin : PinId → Bool
  pinNet : PinId → Option NetId
  netDrivers : NetId → List PinId
  netLoads : NetId → List PinId
  pinInstance : PinId → Option InstanceId
  isLoadPin : PinId → Bool
  isClockPin : PinId → Bool
  /-- The pins that cell arcs lead to from a pin. -/
  instanceArcs : PinId → Direction → List PinId

/-- The answers of a design database. -/
structure DesignDatabase where
  /-- The terminal of a timing pin. -/
  terminal : PinId → Option Terminal
  /-- The timing pin of a terminal. -/
  timingPin : Terminal → Option PinId
  /-- The name of the terminal itself, without its instance. -/
  pinName : Terminal → Option String
  pinShapes : Terminal → List Rect
  pinInstance : Terminal → Option InstanceId
  pinNet : Terminal → Option NetId
  instanceName : InstanceId → Option String
  /-- The name of the library cell that an instance places. -/
  instanceMaster : InstanceId → Option String
  netName : NetId → Option String

/-- The two sources that a query runs against. -/
structure Context where
  engine : TimingEngine
  database : DesignDatabase

/-- The number of loads that a pin has on its net, itself not counted; a floating pin has none. -/
def TimingEngine.fanout (engine : TimingEngine) (pin : PinId) : Nat :=
  match engine.pinNet pin with
  | none => 0
  | some net => ((engine.netLoads net).filter (· ≠ pin)).length

/-- Why a query has no answer. -/
inductive QueryError where
  | noEngine
  | noDatabase
  | unknownPin (pin : PinId)
  | unknownPath (path : PathId)
  /-- The pin has no terminal. -/
  | unmappedPin (pin : PinId)
  | unknownCorner (name : String)
  | noCorner
  deriving DecidableEq, Repr

def QueryError.message : QueryError → String
  | noEngine => "no timing engine configured"
  | noDatabase => "no design database configured"
  | unknownPin pin => s!"unknown pin {pin.describe}"
  | unknownPath path => s!"unknown path handle {path.describe}"
  | unmappedPin pin => s!"pin {pin.describe} has no database counterpart"
  | unknownCorner name => s!"unknown corner '{name}'"
  | noCorner => "timing engine has no default corner"

/-- An answer or the reason why there is none. -/
abbrev QueryResult := Except QueryError

end TimingExplorer
