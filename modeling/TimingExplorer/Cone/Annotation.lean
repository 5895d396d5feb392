import TimingExplorer.Cone.Traversal
import TimingExplorer.Levels

/-!
Nodes for the pins of a cone. Every pin gets the node of its current timing, and the new nodes are
linked along nets and through cells. All nodes are made before the first is stored, so a pin that
cannot have one leaves everything as it was.
-/

namespace TimingExplorer

/-- Builds cones. Without a database it can find their pins but not make nodes. -/
structure ConeBuilder where
  engine : TimingEngine
  database : Option DesignDatabase := none

namespace ConeBuilder

def ofContext (ctx : Context) : ConeBuilder := ⟨ctx.engine, some ctx.database⟩

/-- The nodes of all entries, or the first reason why one cannot be made. -/
def nodesOf (ctx : Context) (point : AnalysisPoint) :
    List (Int × PinId) → QueryResult (List (Int × PathNode))
  | [] => .ok []
  | (depth, pin) :: rest => do
    let node ← PathNode.ofPin ctx pin point
    return (depth, node) :: (← nodesOf ctx point rest)

/-- Makes a node point at another one unless it already points somewhere. -/
def pointIfFree (nodes : NodeArena) (node target : NodeId) : NodeArena :=
  if (nodes.get? node).any (·.instanceNode.isNone) then (nodes.setInstanceNode node target).2
  else nodes

/-- The links of one new node. A load is linked with the outputs that its cell arcs lead to; a
driver is paired with the loads of its net. -/
def linkNode (engine : TimingEngine) (byPin : Std.TreeMap PinId NodeId) (nodes : NodeArena)
    (pin : PinId) (id : NodeId) : NodeArena :=
  if engine.isLoadPin pin then
    ((engine.instanceArcs pin .forward).filterMap (byPin[·]?)).foldl
      (fun nodes output => pointIfFree (pointIfFree nodes id output) output id) nodes
  else
    match engine.pinNet pin with
    | none => nodes
    | some net =>
      ((engine.netLoads net).filterMap (byPin[·]?)).foldl (fun nodes load => (nodes.pair id load).2)
        nodes

/-- Links new nodes with each other, in their order. -/
def linkConnectivity (engine : TimingEngine) (fresh : List (PinId × NodeId)) (nodes : NodeArena) :
    NodeArena :=
  let byPin : Std.TreeMap PinId NodeId := .ofList fresh
  fresh.foldl (fun nodes (pin, id) => linkNode engine byPin nodes pin id) nodes

/-- Adds a node for every entry of a depth map, in order of depth and pin. -/
def annotate (b : ConeBuilder) (point : AnalysisPoint) (depthMap : DepthMap) (l : NodesByDepth) :
    QueryResult NodesByDepth :=
  match b.database with
  | none => .error .noDatabase
  | some database => do
    let built ← nodesOf ⟨b.engine, database⟩ point depthMap.entries
    let (ids, pushed) := l.pushAll built
    let fresh := (built.map fun (_, node) => node.pin).zip ids
    return { pushed with nodes := linkConnectivity b.engine fresh pushed.nodes }

/-- Finds the cone of a seed and makes its nodes. The first part of the result is the depth map
that the caller is left with: once the cone has been found it replaces the earlier one, whether or
not its nodes can be made. -/
def build (b : ConeBuilder) (seed : PinId) (direction : ConeDirection) (point : AnalysisPoint)
    (earlier : DepthMap) : DepthMap × QueryResult NodesByDepth :=
  match b.engine.cone seed direction with
  | .error e => (earlier, .error e)
  | .ok depthMap => (depthMap, b.annotate point depthMap .empty)

end ConeBuilder

end TimingExplorer
