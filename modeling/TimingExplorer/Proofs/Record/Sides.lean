import TimingExplorer.Proofs.Node.Data
import TimingExplorer.Record

/-!
The two sides of a record share one arena, which is renumbered whenever a side is replaced. Each
node stays on exactly one side, and every operation touches the nodes of one side only: what is said
of the nodes of the other, apart from links, is as before.
-/
namespace TimingExplorer

def Side.other : Side → Side
  | .launch => .capture
  | .capture => .launch

/-- How far a walk moves the arrivals on a side. -/
def Side.shift (offset : Double) : Side → Double
  | .launch => 0
  | .capture => offset

namespace PathRecord

/-- Walks a path and makes it one side. The offset concerns the capture side only. -/
def populate (r : PathRecord) (ctx : Context) (path : PathId) (offset : Double)
    (clockExpanded : Bool) : Side → QueryResult PathRecord
  | .launch => r.populateLaunch ctx path clockExpanded
  | .capture => r.populateCapture ctx path offset clockExpanded

theorem populate_eq (r : PathRecord) (ctx : Context) (path : PathId) (offset : Double)
    (clockExpanded : Bool) (side : Side) : r.populate ctx path offset clockExpanded side =
      (stageNodes ctx path (side.shift offset) clockExpanded).map
        (r.installSide ctx.database side) := by
  cases side <;> rfl

variable {r : PathRecord} {side : Side} {id : NodeId}

/-- Every node of the arena stands exactly once on one of the sides. -/
def Partitioned (r : PathRecord) : Prop := (r.launchIds ++ r.captureIds).Perm r.nodes.nodes.ids

/-- The nodes of a side without their links. -/
def sideData (r : PathRecord) (side : Side) : List (Option PathNode) :=
  (r.ids side).map r.nodes.data

theorem Partitioned.empty : PathRecord.empty.Partitioned := .nil

theorem mem_ids : id ∈ r.nodes.nodes.ids ↔ r.nodes.contains id = true := by
  obtain ⟨raw⟩ := id
  simp [Arena.ids, NodeArena.contains, Arena.contains_iff]

theorem Partitioned.contains (whole : r.Partitioned) (member : id ∈ r.ids side) :
    r.nodes.contains id = true := by
  rw [← mem_ids, ← whole.mem_iff, List.mem_append]
  cases side with
  | launch => exact .inl member
  | capture => exact .inr member

theorem Partitioned.nodup (whole : r.Partitioned) : (r.launchIds ++ r.captureIds).Nodup := by
  refine whole.nodup_iff.mpr ?_
  rw [Arena.ids, List.Nodup, List.pairwise_map]
  exact List.nodup_range.imp fun differs same => differs (Id.mk.inj same)

/-! Replacing a side. -/

theorem nodes_replaceSide (fresh : List NodeId) : (r.replaceSide side fresh).nodes =
    (r.nodes.compact (r.ids side.other ++ fresh)).2 := by
  cases side <;> rfl

theorem ids_replaceSide (fresh : List NodeId) : (r.replaceSide side fresh).ids side =
    (r.nodes.compact (r.ids side.other ++ fresh)).1.drop (r.ids side.other).length := by
  cases side <;> rfl

theorem ids_other_replaceSide (fresh : List NodeId) : (r.replaceSide side fresh).ids side.other =
    (r.nodes.compact (r.ids side.other ++ fresh)).1.take (r.ids side.other).length := by
  cases side <;> rfl

/-- The side that is kept comes first. -/
theorem ids_append_replaceSide (r : PathRecord) (side : Side) (fresh : List NodeId) :
    (r.replaceSide side fresh).ids side.other ++ (r.replaceSide side fresh).ids side =
      (r.replaceSide side fresh).nodes.nodes.ids := by
  rw [ids_replaceSide, ids_other_replaceSide, List.take_append_drop, nodes_replaceSide,
    NodeArena.ids_compact, ← NodeArena.size_compact]
  rfl

theorem Partitioned.replaceSide (r : PathRecord) (side : Side) (fresh : List NodeId) :
    (r.replaceSide side fresh).Partitioned := by
  have whole := ids_append_replaceSide r side fresh
  cases side with
  | launch => exact List.perm_append_comm.trans (.of_eq whole)
  | capture => exact .of_eq whole

theorem sideData_replaceSide {fresh : List NodeId}
    (kept : ∀ id ∈ r.ids side.other, r.nodes.contains id = true)
    (known : ∀ id ∈ fresh, r.nodes.contains id = true) :
    (r.replaceSide side fresh).sideData side = fresh.map r.nodes.data ∧
      (r.replaceSide side fresh).sideData side.other = r.sideData side.other := by
  have all : (r.ids side.other ++ fresh).filter r.nodes.contains = r.ids side.other ++ fresh := by
    rw [List.filter_eq_self]
    intro id member
    exact (List.mem_append.mp member).elim (kept id) (known id)
  have moved := NodeArena.map_data_compact r.nodes (r.ids side.other ++ fresh)
  rw [all, List.map_append] at moved
  have length : (r.ids side.other).length = ((r.ids side.other).map r.nodes.data).length :=
    (List.length_map _).symm
  constructor
  · rw [sideData, ids_replaceSide, nodes_replaceSide, List.map_drop, moved, length,
      List.drop_left]
  · rw [sideData, ids_other_replaceSide, nodes_replaceSide, List.map_take, moved, length,
      List.take_left]
    rfl

theorem data_linkInstances (db : DesignDatabase) (nodes : NodeArena) (ids : List NodeId) :
    (linkInstances db nodes ids).data = nodes.data := by
  fun_induction linkInstances db nodes ids with
  | case1 nodes input output rest linked ih =>
    rw [ih]
    unfold linked
    split
    · split
      · rw [NodeArena.data_setInstanceNode, NodeArena.data_setInstanceNode]
      · rfl
    · rfl
  | case2 => rfl

/-- The nodes that are installed make up the side, and the other side keeps its own. -/
theorem sideData_installSide (whole : r.Partitioned) (db : DesignDatabase)
    (fresh : List PathNode) :
    (r.installSide db side fresh).sideData side = fresh.map (some ∘ PathNode.unlinked) ∧
      (r.installSide db side fresh).sideData side.other = r.sideData side.other := by
  let mid : PathRecord := { r with
    nodes := linkInstances db (r.nodes.allocAll fresh).2 (r.nodes.allocAll fresh).1 }
  have data : mid.nodes.data = (r.nodes.allocAll fresh).2.data := data_linkInstances ..
  have old (id) (member : id ∈ r.ids side.other) : mid.nodes.data id = r.nodes.data id := by
    rw [data, NodeArena.data, NodeArena.get?_allocAll fresh (whole.contains member)]
    rfl
  have new : (r.nodes.allocAll fresh).1.map mid.nodes.data =
      fresh.map (some ∘ PathNode.unlinked) := by
    have found := congrArg (List.map (Option.map PathNode.unlinked))
      (NodeArena.map_get?_allocAll fresh (a := r.nodes))
    rw [List.map_map, List.map_map] at found
    exact data ▸ found
  have kept : ∀ id ∈ mid.ids side.other, mid.nodes.contains id = true := by
    intro id member
    replace member : id ∈ r.ids side.other := by cases side <;> exact member
    rw [← NodeArena.isSome_data, old id member, NodeArena.isSome_data]
    exact whole.contains member
  have known : ∀ id ∈ (r.nodes.allocAll fresh).1, mid.nodes.contains id = true := by
    intro id member
    have image := List.mem_map_of_mem (f := mid.nodes.data) member
    rw [new] at image
    obtain ⟨_, _, same⟩ := List.mem_map.mp image
    rw [← NodeArena.isSome_data, ← same]
    rfl
  obtain ⟨installed, others⟩ := sideData_replaceSide kept known
  refine ⟨installed.trans new, others.trans ?_⟩
  have ids : mid.ids side.other = r.ids side.other := by cases side <;> rfl
  rw [sideData, ids]
  exact List.map_congr_left old

theorem Partitioned.installSide (r : PathRecord) (db : DesignDatabase) (side : Side)
    (fresh : List PathNode) : (r.installSide db side fresh).Partitioned :=
  .replaceSide _ side _

/-! Pairing the sides leaves their nodes alone, and only the launch side takes the slack. -/

theorem data_pairAll (pairs : List (NodeId × NodeId)) (nodes : NodeArena) :
    (pairs.foldl (fun nodes (x, y) => (nodes.pair x y).2) nodes).data = nodes.data := by
  induction pairs generalizing nodes with
  | nil => rfl
  | cons first rest ih => exact (ih _).trans NodeArena.data_pair

theorem sideData_pairCommonNodes : r.pairCommonNodes.sideData side = r.sideData side := by
  have ids : r.pairCommonNodes.ids side = r.ids side := by cases side <;> rfl
  rw [sideData, sideData, ids, pairCommonNodes, data_pairAll]

theorem Partitioned.of_size {r' : PathRecord} (whole : r.Partitioned)
    (launch : r'.launchIds = r.launchIds) (capture : r'.captureIds = r.captureIds)
    (size : r'.nodes.nodes.size = r.nodes.nodes.size) : r'.Partitioned := by
  rw [Partitioned, launch, capture, Arena.ids, size]
  exact whole

theorem Partitioned.pairCommonNodes (whole : r.Partitioned) : r.pairCommonNodes.Partitioned :=
  whole.of_size rfl rfl (NodeArena.size_eq_of_data_eq (data_pairAll _ _))

theorem data_setSlackAll (slack : Double) (ids : List NodeId) (nodes : NodeArena) :
    (ids.foldl (fun nodes id => nodes.modify id (·.setSlack slack)) nodes).data id =
      if id ∈ ids then (nodes.data id).map (·.setSlack slack) else nodes.data id := by
  induction ids generalizing nodes with
  | nil => rfl
  | cons first rest ih =>
    have here : (nodes.modify first (·.setSlack slack)).data id =
        if first = id then (nodes.data id).map (·.setSlack slack) else nodes.data id := by
      rw [NodeArena.data, NodeArena.get?, NodeArena.modify, Arena.get?_modify, NodeArena.data,
        NodeArena.get?]
      split
      · rw [Option.map_map, Option.map_map]
        rfl
      · rfl
    rw [List.foldl_cons, ih, here]
    by_cases same : first = id <;> by_cases later : id ∈ rest
    · simp [same, later, Function.comp_def, PathNode.setSlack]
    · simp [same, later]
    · simp [same, later]
    · simp [same, later, Ne.symm same]

theorem size_setSlackAll (slack : Double) (ids : List NodeId) (nodes : NodeArena) :
    (ids.foldl (fun nodes id => nodes.modify id (·.setSlack slack)) nodes).size = nodes.size := by
  induction ids generalizing nodes with
  | nil => rfl
  | cons first rest ih => exact (ih _).trans (Arena.size_modify _ _ _)

theorem Partitioned.spreadSlack (whole : r.Partitioned) : r.spreadSlack.Partitioned :=
  whole.of_size rfl rfl (size_setSlackAll _ _ _)

theorem sideData_launch_spreadSlack : r.spreadSlack.sideData .launch =
    (r.sideData .launch).map (Option.map (·.setSlack r.slack)) := by
  rw [sideData, sideData, List.map_map]
  refine List.map_congr_left fun id member => ?_
  exact (data_setSlackAll ..).trans (if_pos member)

theorem sideData_capture_spreadSlack (whole : r.Partitioned) :
    r.spreadSlack.sideData .capture = r.sideData .capture := by
  refine List.map_congr_left fun id member => ?_
  have elsewhere : id ∉ r.launchIds := fun launched =>
    (List.nodup_append.mp whole.nodup).2.2 id launched id member rfl
  exact (data_setSlackAll ..).trans (if_neg elsewhere)

/-! The nodes of a side are found under its ids. -/

theorem Partitioned.map_get? (whole : r.Partitioned) (side : Side) :
    (r.ids side).map r.nodes.get? = (r.sideNodes side).map some := by
  refine (map_some_filterMap fun id member => ?_).symm
  rw [NodeArena.isSome_get?]
  exact whole.contains member

theorem unlinked_sideNodes {nodes : List PathNode} (same : r.sideData side = nodes.map some) :
    (r.sideNodes side).map PathNode.unlinked = nodes := by
  have data := congrArg (List.filterMap id) same
  rw [List.filterMap_map, sideData, List.filterMap_map] at data
  rw [sideNodes, List.map_filterMap]
  exact data.trans (by simp)

end PathRecord

end TimingExplorer
