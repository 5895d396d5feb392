import TimingExplorer.Node.Arena

/-!
Nodes sorted into levels by their depth. A level holds its nodes in the order in which they came.
-/

namespace TimingExplorer

open Document

structure NodesByDepth where
  nodes : NodeArena := .empty
  levels : Std.TreeMap Int (List NodeId) := ∅

namespace NodesByDepth

def empty : NodesByDepth := {}

/-- Stores a node at a depth and returns its id. -/
def push (l : NodesByDepth) (depth : Int) (node : PathNode) : NodeId × NodesByDepth :=
  let (id, nodes) := l.nodes.alloc node
  (id, { nodes, levels := l.levels.insert depth (l.levels.getD depth [] ++ [id]) })

/-- Stores nodes one after the other and returns their ids. -/
def pushAll (l : NodesByDepth) : List (Int × PathNode) → List NodeId × NodesByDepth
  | [] => ([], l)
  | (depth, node) :: rest =>
    let (id, l) := l.push depth node
    let (ids, l) := l.pushAll rest
    (id :: ids, l)

def depths (l : NodesByDepth) : List Int := l.levels.keys

def levelIds (l : NodesByDepth) (depth : Int) : List NodeId := l.levels.getD depth []

def level (l : NodesByDepth) (depth : Int) : List PathNode :=
  (l.levelIds depth).filterMap l.nodes.get?

/-- All nodes with their depths, least depth first. -/
def entries (l : NodesByDepth) : List (Int × PathNode) :=
  l.levels.toList.flatMap fun (depth, ids) => (ids.filterMap l.nodes.get?).map fun n => (depth, n)

def node? (l : NodesByDepth) (id : NodeId) : Option PathNode := l.nodes.get? id

def size (l : NodesByDepth) : Nat := l.nodes.size

def isEmpty (l : NodesByDepth) : Bool := l.nodes.isEmpty

def encode (l : NodesByDepth) : Value :=
  let levels := l.levels.toList.map fun (depth, ids) => (toString depth, Encode.list Id.encode ids)
  .object [("nodes", l.nodes.encode), ("levels", .object levels)]

end NodesByDepth

end TimingExplorer
