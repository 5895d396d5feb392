import TimingExplorer.Config
import TimingExplorer.Cone.DepthMap
import TimingExplorer.Deque
import TimingExplorer.Engine

/-!
Cones of influence: the pins that a signal can reach from a seed, or come from. A step across a net
leads one level further, a step through a cell stays on the level, and every pin lies at the least
depth that any walk reaches it at.

The search keeps a queue in order of depth: pins met through a cell are put in front, since they lie
on the level at hand, and pins met across a net at the back. A queued pin whose depth has improved
since is passed over, so that loops end.
-/

namespace TimingExplorer

namespace TimingEngine

/-- The pins one step through the cell away. -/
def cellNeighbors (engine : TimingEngine) (direction : Direction) (pin : PinId) : List PinId :=
  engine.instanceArcs pin direction

/-- The pins one step across the net away: the loads of a driver, or the drivers of a load. -/
def netNeighbors (engine : TimingEngine) (direction : Direction) (pin : PinId) : List PinId :=
  match engine.pinNet pin with
  | none => []
  | some net =>
    let (near, far) := match direction with
      | .forward => (engine.netDrivers net, engine.netLoads net)
      | .backward => (engine.netLoads net, engine.netDrivers net)
    if near.contains pin then far.filter (· ≠ pin) else []

end TimingEngine

namespace Cone

/-- The search at one moment: the least depth found of each pin so far, and the pins whose
neighbours are still to be looked at, with the depths at which they were met. -/
structure Search where
  best : Std.TreeMap PinId Nat := ∅
  queue : Deque (PinId × Nat) := .empty

namespace Search

/-- Whether a pin has not been met at this depth or a lesser one. -/
def improves (s : Search) (pin : PinId) (depth : Nat) : Bool := (s.best[pin]?).all (depth < ·)

/-- Meets a pin at a depth. If that is an improvement, the depth is noted and the pin is queued at
one of the ends. -/
def meet (push : Deque (PinId × Nat) → PinId × Nat → Deque (PinId × Nat)) (depth : Nat) (s : Search)
    (pin : PinId) : Search :=
  if s.improves pin depth then
    { best := s.best.insert pin depth, queue := push s.queue (pin, depth) }
  else s

/-- Looks at all neighbours of a pin: those through the cell lie on its level and go to the front of
the queue, those across the net lie on the next level and go to the back. -/
def expand (near far : PinId → List PinId) (s : Search) (pin : PinId) (depth : Nat) : Search :=
  (far pin).foldl (meet .pushBack (depth + 1)) ((near pin).foldl (meet .pushFront depth) s)

/-- Takes the first pin of the queue; none if the queue is empty. -/
def step? (near far : PinId → List PinId) (s : Search) : Option Search :=
  s.queue.popFront?.map fun ((pin, depth), queue) =>
    let s := { s with queue }
    if (s.best[pin]?).any (· < depth) then s else s.expand near far pin depth

/-- Goes on until the queue is empty. None stands for a search without end, which takes an engine
with infinitely many pins within reach. -/
def run? (near far : PinId → List PinId) (s : Search) : Option Search :=
  match s.step? near far with
  | none => some s
  | some next => next |>.run? near far
partial_fixpoint

/-- The search before its first step. -/
def start (seed : PinId) : Search :=
  { best := (∅ : Std.TreeMap PinId Nat).insert seed 0, queue := Deque.empty.pushBack (seed, 0) }

end Search

/-- The least depth of every pin within reach of the seed, where the search comes to an end. -/
def depths (near far : PinId → List PinId) (seed : PinId) : Std.TreeMap PinId Nat :=
  (((Search.start seed).run? near far).map (·.best)).getD ∅

end Cone

namespace TimingEngine

/-- The cone on one side of a seed. A seed without a net has an empty one. -/
def reach (engine : TimingEngine) (direction : Direction) (seed : PinId) : QueryResult DepthMap :=
  if engine.containsPin seed then
    if (engine.pinNet seed).isNone then .ok ∅
    else
      let depths :=
        Cone.depths (engine.cellNeighbors direction) (engine.netNeighbors direction) seed
      .ok (.ofDepths (depths.toList.map fun (pin, depth) => (pin, (depth : Int))))
  else .error (.unknownPin seed)

def faninCone (engine : TimingEngine) (seed : PinId) : QueryResult DepthMap :=
  engine.reach .backward seed

def fanoutCone (engine : TimingEngine) (seed : PinId) : QueryResult DepthMap :=
  engine.reach .forward seed

end TimingEngine

namespace DepthMap

/-- The depth of every pin when the fanin side is turned to negative depths. A pin on both sides
keeps the depth closer to the seed, and of equal ones that of the fanout side. -/
def mergedDepths (fanin fanout : DepthMap) : Std.TreeMap PinId Int :=
  let depths := fanout.entries.foldl (fun m (depth, pin) => m.insert pin depth) ∅
  fanin.entries.foldl
    (fun m (depth, pin) => if (m[pin]?).any (· ≤ depth) then m else m.insert pin (-depth)) depths

/-- Both cones around a seed as one map. -/
def merge (fanin fanout : DepthMap) : DepthMap := .ofDepths (mergedDepths fanin fanout).toList

end DepthMap

/-- The cone of a seed in a direction. -/
def TimingEngine.cone (engine : TimingEngine) (seed : PinId) : ConeDirection → QueryResult DepthMap
  | .fanin => engine.faninCone seed
  | .fanout => engine.fanoutCone seed
  | .both => do
    let fanin ← engine.faninCone seed
    let fanout ← engine.fanoutCone seed
    return fanin.merge fanout

end TimingExplorer
