import TimingExplorer.Cone.Annotation
import TimingExplorer.Record

/-!
Queries. A service holds the sources that are bound to it and the settings that its queries run
under; each query also has a form that takes its settings from the caller.
-/

namespace TimingExplorer

structure QueryService where
  engine : Option TimingEngine := none
  database : Option DesignDatabase := none
  analysis : AnalysisConfig := {}
  cone : ConeConfig := {}

namespace QueryService

/-- A service with default settings, bound to both sources. -/
def ofContext (ctx : Context) : QueryService :=
  { engine := some ctx.engine, database := some ctx.database }

/-- Takes the analysis and cone settings of a configuration. -/
def applyConfig (s : QueryService) (c : Config) : QueryService :=
  { s with analysis := c.analysis, cone := c.cone }

def requireEngine (s : QueryService) : QueryResult TimingEngine :=
  match s.engine with
  | none => .error .noEngine
  | some engine => .ok engine

/-- Both sources, or which one is missing; the engine is asked for first. -/
def context (s : QueryService) : QueryResult Context :=
  match s.engine, s.database with
  | none, _ => .error .noEngine
  | some _, none => .error .noDatabase
  | some engine, some database => .ok ⟨engine, database⟩

/-- The analysis point that settings stand for. -/
def pointOf (engine : TimingEngine) (config : AnalysisConfig) : QueryResult AnalysisPoint :=
  match config.corner with
  | some name =>
    match engine.findCorner name with
    | none => .error (.unknownCorner name)
    | some corner => .ok ⟨corner, .ofUseMax config.useMax⟩
  | none =>
    match engine.defaultCorner with
    | none => .error .noCorner
    | some corner => .ok ⟨corner, .ofUseMax config.useMax⟩

def analysisPointWith (s : QueryService) (config : AnalysisConfig) : QueryResult AnalysisPoint := do
  pointOf (← s.requireEngine) config

def analysisPoint (s : QueryService) : QueryResult AnalysisPoint := s.analysisPointWith s.analysis

/-- The record of one path, both sides populated and linked. -/
def buildRecord (ctx : Context) (config : AnalysisConfig) (path : PathId) :
    QueryResult PathRecord := do
  let some summary := ctx.engine.pathSummary path | .error (.unknownPath path)
  let launched ←
    (PathRecord.empty.applySummary summary).populateLaunch ctx path config.clockExpanded
  let captured ←
    match (if config.includeCapturePaths then ctx.engine.capturePath path else none) with
    | none => .ok launched
    | some capture => launched.populateCapture ctx capture.path capture.offset config.clockExpanded
  return captured.pairCommonNodes.computeClockEnds.spreadSlack

/-- The records of all paths, or the error of the first that has none. -/
def buildRecords (ctx : Context) (config : AnalysisConfig) :
    List PathId → QueryResult (List PathRecord)
  | [] => .ok []
  | path :: rest => do
    let record ← buildRecord ctx config path
    return record :: (← buildRecords ctx config rest)

/-- All pins that a request names, in order: starts, groups between the ends, ends. -/
def requestedPins (starts : PinSet) (throughs : List PinSet) (ends : PinSet) : List PinId :=
  starts.toList ++ throughs.flatMap (·.toList) ++ ends.toList

/-- Paths from, through and to groups of pins, most critical first. An empty group at an end leaves
that end open; an empty group between the ends cannot be met. -/
def timingPathsWith (s : QueryService) (config : AnalysisConfig) (starts : PinSet)
    (throughs : List PinSet) (ends : PinSet) : QueryResult (List PathRecord) := do
  let ctx ← s.context
  let point ← pointOf ctx.engine config
  match (requestedPins starts throughs ends).find? (!ctx.engine.containsPin ·) with
  | some pin => .error (.unknownPin pin)
  | none =>
    if config.maxPathCount = 0 ∨ throughs.any (·.isEmpty) then return []
    let search : PathSearch :=
      { starts, throughs, ends, point
        maxPaths := config.maxPathCount, unconstrained := config.includeUnconstrained }
    buildRecords ctx config ((ctx.engine.findPaths search).take config.maxPathCount)

def timingPaths (s : QueryService) (starts : PinSet) (throughs : List PinSet) (ends : PinSet) :
    QueryResult (List PathRecord) :=
  s.timingPathsWith s.analysis starts throughs ends

/-- Paths through one pin. -/
def timingPathsThroughWith (s : QueryService) (config : AnalysisConfig) (pin : PinId) :
    QueryResult (List PathRecord) :=
  s.timingPathsWith config ∅ [(∅ : PinSet).insert pin] ∅

def timingPathsThrough (s : QueryService) (pin : PinId) : QueryResult (List PathRecord) :=
  s.timingPathsThroughWith s.analysis pin

/-- The node of one pin by itself. -/
def timingNodeWith (s : QueryService) (config : AnalysisConfig) (pin : PinId) :
    QueryResult PathNode := do
  let ctx ← s.context
  PathNode.ofPin ctx pin (← pointOf ctx.engine config)

def timingNode (s : QueryService) (pin : PinId) : QueryResult PathNode :=
  s.timingNodeWith s.analysis pin

/-- Where a signal at a pin can come from. Only the engine is needed. -/
def faninCone (s : QueryService) (pin : PinId) : QueryResult DepthMap := do
  (← s.requireEngine).faninCone pin

/-- Where a signal at a pin can go. Only the engine is needed. -/
def fanoutCone (s : QueryService) (pin : PinId) : QueryResult DepthMap := do
  (← s.requireEngine).fanoutCone pin

/-- Finds the cone of a seed and makes its nodes; see `ConeBuilder.build` for the first part of the
result. -/
def buildConeWith (s : QueryService) (config : AnalysisConfig) (direction : ConeDirection)
    (seed : PinId) (earlier : DepthMap) : DepthMap × QueryResult NodesByDepth :=
  let prepared : QueryResult (Context × AnalysisPoint) := do
    let ctx ← s.context
    return (ctx, ← pointOf ctx.engine config)
  match prepared with
  | .error e => (earlier, .error e)
  | .ok (ctx, point) => (ConeBuilder.ofContext ctx).build seed direction point earlier

def buildCone (s : QueryService) (seed : PinId) (earlier : DepthMap) :
    DepthMap × QueryResult NodesByDepth :=
  s.buildConeWith s.analysis s.cone.direction seed earlier

/-- Adds a node for every entry of a depth map. -/
def annotate (s : QueryService) (depthMap : DepthMap) (l : NodesByDepth) :
    QueryResult NodesByDepth := do
  let ctx ← s.context
  (ConeBuilder.ofContext ctx).annotate (← pointOf ctx.engine s.analysis) depthMap l

end QueryService

end TimingExplorer
