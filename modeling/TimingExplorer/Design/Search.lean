import TimingExplorer.Design
import TimingExplorer.Double

/-!
Search among stored paths: the paths that fit, least slack first, and of equal slacks the path that
was stored first.
-/

namespace TimingExplorer

namespace Design

/-- An empty group accepts every pin. -/
def accepts (group : PinSet) (pin : PinId) : Bool := group.isEmpty || group.contains pin

namespace StoredPath

/-- The stage that a path starts at: the last one of the clock stages it begins with, or its first
stage if that is not on the clock. -/
def startStage? (p : StoredPath) : Option PathStage :=
  p.stages[(p.stages.takeWhile (·.isClock)).length - 1]?

/-- Whether the groups are met in order, each at a later stage than the one before. Every group
takes the first stage that it can. -/
def meets : List PinSet → List PathStage → Bool
  | [], _ => true
  | _ :: _, [] => false
  | group :: groups, stage :: stages =>
    if group.contains stage.pin then meets groups stages else meets (group :: groups) stages

/-- Whether a path fits a search. A path whose slack is infinite is unconstrained. -/
def fits (p : StoredPath) (s : PathSearch) : Bool :=
  p.searchable && p.point = s.point &&
    (s.unconstrained || !p.summary.slack.isInfinite) &&
    p.startStage?.any (accepts s.starts ·.pin) &&
    p.stages.getLast?.any (accepts s.ends ·.pin) &&
    meets s.throughs p.stages

end StoredPath

/-- All stored paths that fit, in the order in which they were stored. -/
def fittingPaths (d : Design) (s : PathSearch) : List (PathId × StoredPath) :=
  d.paths.entries.filter fun entry => entry.2.fits s

/-- The first paths that fit, most critical first, as many as the search allows. -/
def findPaths (d : Design) (s : PathSearch) : List PathId :=
  (((d.fittingPaths s).mergeSort fun a b =>
    a.2.summary.slack.le b.2.summary.slack).take s.maxPaths).map Prod.fst

/-- The design as a timing engine. -/
def engine (d : Design) : TimingEngine where
  defaultCorner := d.defaultCorner
  findCorner := d.findCorner
  cornerName corner := d.corners.get? corner
  findPaths := d.findPaths
  pathSummary path := (d.paths.get? path).map (·.summary)
  pathStages path := (d.paths.get? path).map (·.stages)
  capturePath path := (d.paths.get? path).bind (·.capture)
  pinTiming := d.pinTiming
  containsPin pin := d.pins.contains pin
  pinNet := d.pinNet
  netDrivers := d.netDrivers
  netLoads := d.netLoads
  pinInstance pin := (d.pins.get? pin).bind (·.inst)
  isLoadPin := d.isLoadPin
  isClockPin := d.isClockPin
  instanceArcs := d.instanceArcs

/-- The design on both sides of a query. -/
def context (d : Design) : Context := ⟨d.engine, d.database⟩

end Design

end TimingExplorer
