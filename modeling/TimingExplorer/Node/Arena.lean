import TimingExplorer.Node

/-!
The nodes of one path record or one cone. Links are kept within the arena: no operation makes a node
point at itself or at an id that the arena never gave out.
-/

namespace TimingExplorer

open Document

structure NodeArena where
  nodes : Arena .node PathNode

namespace NodeArena

def empty : NodeArena := ⟨.empty⟩

instance : Inhabited NodeArena := ⟨empty⟩

def size (a : NodeArena) : Nat := a.nodes.size

def isEmpty (a : NodeArena) : Bool := a.nodes.isEmpty

def contains (a : NodeArena) (id : NodeId) : Bool := a.nodes.contains id

def get? (a : NodeArena) (id : NodeId) : Option PathNode := a.nodes.get? id

def entries (a : NodeArena) : List (NodeId × PathNode) := a.nodes.entries

/-- Stores a node and returns its id. -/
def alloc (a : NodeArena) (node : PathNode) : NodeId × NodeArena :=
  (a.nodes.nextId, ⟨a.nodes.push node⟩)

/-- Stores nodes one after the other and returns their ids. -/
def allocAll (a : NodeArena) : List PathNode → List NodeId × NodeArena
  | [] => ([], a)
  | node :: rest =>
    let (id, a) := a.alloc node
    let (ids, a) := a.allocAll rest
    (id :: ids, a)

/-- Changes one node; a foreign id changes nothing. -/
def modify (a : NodeArena) (id : NodeId) (f : PathNode → PathNode) : NodeArena :=
  ⟨a.nodes.modify id f⟩

/-- Whether a link may join two ids: they differ and both belong to the arena. -/
def linkable (a : NodeArena) (x y : NodeId) : Bool := x ≠ y && a.contains x && a.contains y

/-- Links two nodes both ways, or says that they may not be linked and changes nothing. -/
def pair (a : NodeArena) (x y : NodeId) : Bool × NodeArena :=
  if a.linkable x y then
    let link (other : NodeId) (n : PathNode) : PathNode :=
      { n with paired := n.paired.insert other }
    (true, (a.modify x (link y)).modify y (link x))
  else (false, a)

/-- Makes a node point at its counterpart on the instance, or says that it may not and changes
nothing. -/
def setInstanceNode (a : NodeArena) (node target : NodeId) : Bool × NodeArena :=
  if a.linkable node target then
    (true, a.modify node fun n => { n with instanceNode := some target })
  else (false, a)

/-- Copies role and values from one node into another. -/
def copyData (a : NodeArena) (source target : NodeId) : NodeArena :=
  match a.get? source with
  | some n => a.modify target n.copyData
  | none => a

/-- The new ids of those old ids in a list that belong to the arena, in order of the list. -/
def renumbering (a : NodeArena) (keep : List NodeId) : List (NodeId × NodeId) :=
  (keep.filter a.contains).zipIdx.map fun (old, index) => (old, ⟨index⟩)

/-- Replaces the links of a node by those to nodes that have a new id. -/
def relink (newId? : NodeId → Option NodeId) (n : PathNode) : PathNode :=
  { n with
    paired := .ofList (n.paired.toList.filterMap newId?)
    instanceNode := n.instanceNode.bind newId? }

/-- Keeps only the listed nodes, numbered in order of the list, and returns their new ids. Links to
other nodes are dropped. Where an id is listed twice, links lead to its last copy. -/
def compact (a : NodeArena) (keep : List NodeId) : List NodeId × NodeArena :=
  let renumbered := a.renumbering keep
  let table : Std.TreeMap NodeId NodeId := .ofList renumbered
  let nodes := renumbered.filterMap fun (old, _) => a.get? old
  (renumbered.map Prod.snd, ⟨.ofList (nodes.map (relink (table[·]?)))⟩)

/-- The nodes that a node is paired with. -/
def pairedNodes (a : NodeArena) (id : NodeId) : List PathNode :=
  match a.get? id with
  | some n => n.paired.toList.filterMap a.get?
  | none => []

/-- The counterpart of a node on its instance. -/
def instanceNode? (a : NodeArena) (id : NodeId) : Option PathNode :=
  ((a.get? id).bind (·.instanceNode)).bind a.get?

def encode (a : NodeArena) : Value := .object [("nodes", a.nodes.encode PathNode.encode)]

end NodeArena

end TimingExplorer
