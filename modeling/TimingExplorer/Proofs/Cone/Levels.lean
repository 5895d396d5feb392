import TimingExplorer.Proofs.Cone.Appending

/-!
Levels after any calls that store nodes. A call stores all of its nodes or, if it fails, none, and
each node stands in the level of the depth that was given with it, after the earlier ones.
-/
namespace TimingExplorer.NodesByDepth

/-- One call that stores nodes or fails. -/
inductive Operation where
  | push (depth : Int) (node : PathNode)
  | annotate (builder : ConeBuilder) (point : AnalysisPoint) (m : DepthMap)

/-- The nodes that a call stores, with their depths. -/
def Operation.stored : Operation → List (Int × PathNode)
  | .push depth node => [(depth, node)]
  | .annotate builder point m =>
    match builder.database with
    | none => []
    | some database =>
      (ConeBuilder.nodesOf ⟨builder.engine, database⟩ point m.entries).toOption.getD []

/-- What a call leaves, whether or not it fails on the way. -/
def step (l : NodesByDepth) : Operation → NodesByDepth
  | .push depth node => (l.push depth node).2
  | .annotate builder point m =>
    match builder.database with
    | none => l
    | some database => ((ConeBuilder.annotateInPlace ⟨builder.engine, database⟩ point m).on l).2

def run (l : NodesByDepth) (operations : List Operation) : NodesByDepth := operations.foldl step l

theorem step_annotate (l : NodesByDepth) (builder : ConeBuilder) (point : AnalysisPoint)
    (m : DepthMap) : l.step (.annotate builder point m) =
      match builder.annotate point m l with
      | .ok l' => l'
      | .error _ => l := by
  obtain ⟨engine, database⟩ := builder
  cases database with
  | none => rfl
  | some database =>
    have steps := ConeBuilder.on_annotateInPlace ⟨engine, database⟩ point m l
    refine (congrArg Prod.snd steps).trans ?_
    dsimp only [ConeBuilder.ofContext]
    cases ConeBuilder.annotate ⟨engine, some database⟩ point m l with
    | ok => rfl
    | error => rfl

/-! The levels as the nodes were given. -/

variable {l l' : NodesByDepth} {stored : List (Int × PathNode)} {depth : Int} {id : NodeId}
  {ids : List NodeId}

/-- Exactly these nodes have been stored one after the other. Their links may have changed since. -/
structure Filed (l : NodesByDepth) (stored : List (Int × PathNode)) : Prop where
  nodes : l.nodes.nodes.toList.map PathNode.unlinked = stored.map (·.2.unlinked)
  levelIds : ∀ depth, l.levelIds depth =
    ((empty.numbered (stored.map Prod.fst)).filter (·.1 = depth)).map Prod.snd
  levels : ∀ depth, depth ∈ l.levels ↔ depth ∈ stored.map Prod.fst

theorem filed_empty : empty.Filed [] where
  nodes := rfl
  levelIds _ := rfl
  levels _ := by simp [empty]

theorem Filed.size_eq (filed : l.Filed stored) : l.size = stored.length := by
  have count := congrArg List.length filed.nodes
  rwa [List.length_map, List.length_map] at count

theorem numbered_append {α : Type} (items more : List α) (size : l.size = items.length) :
    empty.numbered (items ++ more) = empty.numbered items ++ l.numbered more := by
  have none : empty.size = 0 := rfl
  rw [numbered, numbered, numbered, List.zipIdx_append, List.map_append, size, none, Nat.zero_add]

theorem Filed.pushAll (filed : l.Filed stored) (built : List (Int × PathNode)) :
    (l.pushAll built).2.Filed (stored ++ built) where
  nodes := by
    rw [(l.nodes_pushAll built).1, NodeArena.toList_allocAll, List.map_append, filed.nodes,
      List.map_append, List.map_map]
    rfl
  levelIds depth := by
    have size : l.size = (stored.map Prod.fst).length := by rw [filed.size_eq, List.length_map]
    rw [levelIds_pushAll, filed.levelIds, List.map_append, numbered_append _ _ size,
      List.filter_append, List.map_append]
  levels depth := by
    rw [mem_levels_pushAll, filed.levels, List.map_append, List.mem_append]

theorem Filed.relink (filed : l.Filed stored) (levels : l'.levels = l.levels)
    (data : l'.nodes.data = l.nodes.data) : l'.Filed stored where
  nodes := (Arena.map_toList_eq _ fun id => congrFun data id).trans filed.nodes
  levelIds depth := by rw [NodesByDepth.levelIds, levels, ← filed.levelIds, NodesByDepth.levelIds]
  levels depth := by rw [levels, filed.levels]

theorem Filed.step (filed : l.Filed stored) (operation : Operation) :
    (l.step operation).Filed (stored ++ operation.stored) := by
  cases operation with
  | push depth node => exact filed.pushAll [(depth, node)]
  | annotate builder point m =>
    obtain ⟨engine, database⟩ := builder
    rw [step_annotate]
    cases database with
    | none => exact (List.append_nil stored).symm ▸ filed
    | some database =>
      simp only [Operation.stored, ConeBuilder.annotate]
      cases ConeBuilder.nodesOf ⟨engine, database⟩ point m.entries with
      | error e => exact (List.append_nil stored).symm ▸ filed
      | ok built =>
        -- Linking is all that happens after the nodes have been stored.
        have links (fresh : List (PinId × NodeId)) (a : NodeArena) :
            NodeArena.LinksWithin (fun _ => True) a (ConeBuilder.linkConnectivity engine fresh a) :=
          ConeBuilder.linksWithin_linkConnectivity engine (fun _ _ => trivial) a
        exact (filed.pushAll built).relink rfl (links _ _).data

theorem Filed.run (filed : l.Filed stored) (operations : List Operation) :
    (l.run operations).Filed (stored ++ operations.flatMap Operation.stored) := by
  induction operations generalizing l stored with
  | nil => exact (List.append_nil stored).symm ▸ filed
  | cons operation rest ih =>
    rw [List.flatMap_cons, ← List.append_assoc]
    exact ih (filed.step operation)

/-! The ids of all levels. -/

/-- The ids of all levels with their depths, least depth first. -/
def places (l : NodesByDepth) : List (Int × NodeId) :=
  l.levels.toList.flatMap fun (depth, ids) => ids.map fun id => (depth, id)

theorem levelIds_eq (level : l.levels[depth]? = some ids) : l.levelIds depth = ids := by
  rw [levelIds, Std.TreeMap.getD_eq_getD_getElem?, level, Option.getD_some]

theorem mem_places : (depth, id) ∈ l.places ↔ id ∈ l.levelIds depth := by
  refine (mem_flatMap_levels fun ids => ids).trans ?_
  rw [levelIds, Std.TreeMap.getD_eq_getD_getElem?]
  cases l.levels[depth]? <;> simp

theorem Filed.mem_levelIds (filed : l.Filed stored) :
    id ∈ l.levelIds depth ↔ ∃ n, stored[id.raw]? = some (depth, n) := by
  rw [filed.levelIds]
  simp [List.mem_filter, mem_numbered_empty]

theorem pairwise_numbered {α : Type} (items : List α) :
    (l.numbered items).Pairwise fun x y => x.2.raw < y.2.raw := by
  rw [numbered, List.pairwise_map]
  have ascending : ((items.zipIdx l.size).map Prod.snd).Pairwise (· < ·) := by
    rw [List.zipIdx_map_snd]
    exact List.pairwise_lt_range'
  exact List.pairwise_map.mp ascending

theorem Filed.ascending (filed : l.Filed stored) (depth : Int) :
    (l.levelIds depth).Pairwise fun x y => x.raw < y.raw := by
  rw [filed.levelIds, List.pairwise_map]
  exact (pairwise_numbered _).filter _

theorem Filed.level_ne_nil (filed : l.Filed stored) (level : l.levels[depth]? = some ids) :
    ids ≠ [] := by
  have listed : depth ∈ l.levels := by
    rw [Std.TreeMap.mem_iff_isSome_getElem?, level]
    rfl
  obtain ⟨⟨depth, n⟩, given, rfl⟩ := List.mem_map.mp ((filed.levels _).mp listed)
  obtain ⟨i, here⟩ := List.mem_iff_getElem?.mp given
  have member : ⟨i⟩ ∈ l.levelIds depth := filed.mem_levelIds.mpr ⟨n, here⟩
  rw [levelIds_eq level] at member
  exact List.ne_nil_of_mem member

theorem pairwise_depths (l : NodesByDepth) : l.depths.Pairwise (· < ·) :=
  Std.TreeMap.ordered_keys.imp Std.compare_eq_lt.mp

theorem Filed.pairwise_places (filed : l.Filed stored) :
    l.places.Pairwise fun p q => p.1 < q.1 ∨ p.1 = q.1 ∧ p.2.raw < q.2.raw := by
  refine pairwise_flatMap_levels (R := fun x y : NodeId => x.raw < y.raw) (fun ids => ids)
    fun depth ids level => ?_
  rw [← levelIds_eq level]
  exact filed.ascending depth

theorem Filed.contains_iff (filed : l.Filed stored) :
    l.nodes.contains id = true ↔ ∃ depth, id ∈ l.levelIds depth := by
  rw [NodeArena.contains_iff, ← size, filed.size_eq]
  simp only [filed.mem_levelIds]
  constructor
  · intro inside
    exact ⟨_, _, List.getElem?_eq_getElem inside⟩
  · rintro ⟨depth, n, here⟩
    exact (List.getElem?_eq_some_iff.mp here).1

theorem mem_ids : id ∈ l.nodes.nodes.ids ↔ l.nodes.contains id = true := by
  obtain ⟨raw⟩ := id
  simp [Arena.ids, NodeArena.contains, Arena.contains, Arena.size]

/-- Every id is in one level, and there only once. -/
theorem Filed.perm_ids (filed : l.Filed stored) :
    (l.places.map Prod.snd).Perm l.nodes.nodes.ids := by
  have distinct : (l.places.map Prod.snd).Nodup := by
    refine List.Nodup.map_on ?_ (filed.pairwise_places.imp ?_)
    · rintro ⟨depth, id⟩ first ⟨depth', id'⟩ second rfl
      obtain ⟨n, here⟩ := filed.mem_levelIds.mp (mem_places.mp first)
      obtain ⟨n', here'⟩ := filed.mem_levelIds.mp (mem_places.mp second)
      obtain ⟨rfl, rfl⟩ := Prod.mk.inj (Option.some.inj (here.symm.trans here'))
      rfl
    · rintro p q before rfl
      exact before.elim (lt_irrefl _) fun within => lt_irrefl _ within.2
  have numbers : l.nodes.nodes.ids.Nodup := List.nodup_range.map fun _ _ => Id.mk.inj
  refine (List.perm_ext_iff_of_nodup distinct numbers).mpr fun id => ?_
  rw [mem_ids, filed.contains_iff]
  simp [mem_places]

theorem Filed.isSome_node? (filed : l.Filed stored) (member : id ∈ l.levelIds depth) :
    (l.node? id).isSome = true :=
  NodeArena.isSome_get?.trans (filed.contains_iff.mpr ⟨depth, member⟩)

/-- What is read back are the nodes of all places, and none is missing. -/
theorem Filed.map_entries (filed : l.Filed stored) :
    (l.entries.map fun (depth, n) => (depth, some n)) =
      l.places.map fun (depth, id) => (depth, l.node? id) := by
  rw [entries, places, List.map_flatMap, List.map_flatMap]
  refine List.flatMap_congr fun (depth, ids) level => ?_
  have found : (ids.filterMap l.nodes.get?).map some = ids.map l.node? :=
    have level := Std.TreeMap.mem_toList_iff_getElem?_eq_some.mp level
    map_some_filterMap fun id member => filed.isSome_node? (levelIds_eq level ▸ member)
  have paired := congrArg (List.map (Prod.mk depth)) found
  simpa [Function.comp_def] using paired

theorem Filed.size_eq_sum (filed : l.Filed stored) :
    l.size = (l.levels.toList.map fun (_, ids) => ids.length).sum := by
  calc l.size
    _ = l.nodes.nodes.ids.length := by
      rw [Arena.ids, List.length_map, List.length_range]
      rfl
    _ = l.places.length := by rw [← filed.perm_ids.length_eq, List.length_map]
    _ = _ := by simp [places, List.length_flatMap]

/-- What holds of the levels after any calls, of which some may fail. Every id of the arena is in
one level and there once, no level is empty, and depths ascend from level to level as ids do within
one. Read back in that order, every node stands at the depth that was given with it, the same apart
from its links, and no level holds an id that the arena never gave out. -/
theorem levels_of_run (operations : List Operation) :
    let l := empty.run operations
    let stored := operations.flatMap Operation.stored
    (l.places.map Prod.snd).Perm l.nodes.nodes.ids ∧
      (∀ (depth : Int) ids, l.levels[depth]? = some ids →
        ids ≠ [] ∧ ids.Pairwise fun x y => x.raw < y.raw) ∧
      l.depths.Pairwise (· < ·) ∧
      (l.places.Pairwise fun p q => p.1 < q.1 ∨ p.1 = q.1 ∧ p.2.raw < q.2.raw) ∧
      (l.entries.map fun (depth, n) => (depth, some n)) =
        (l.places.map fun (depth, id) => (depth, l.node? id)) ∧
      (∀ depth id, (depth, id) ∈ l.places ↔ ∃ n, stored[id.raw]? = some (depth, n)) ∧
      l.nodes.nodes.toList.map PathNode.unlinked = stored.map (·.2.unlinked) ∧
      l.size = (l.levels.toList.map fun (_, ids) => ids.length).sum ∧
      ∀ depth, (∀ id ∈ l.levelIds depth, l.nodes.contains id = true) ∧
        (l.level depth).map some = (l.levelIds depth).map l.node? := by
  intro l stored
  have filed : l.Filed stored := filed_empty.run operations
  refine ⟨filed.perm_ids, fun depth ids level => ⟨filed.level_ne_nil level, ?_⟩, l.pairwise_depths,
    filed.pairwise_places, filed.map_entries, fun depth id => mem_places.trans filed.mem_levelIds,
    filed.nodes, filed.size_eq_sum,
    fun depth => ⟨fun id member => filed.contains_iff.mpr ⟨depth, member⟩, ?_⟩⟩
  · rw [← levelIds_eq level]
    exact filed.ascending depth
  · exact map_some_filterMap fun id member => filed.isSome_node? member

example : let node := PathNode.placeholder (.ofBlock ⟨0⟩) ⟨0⟩ {}
    let l := empty.run [.push 3 node, .push (-2) node,
      .annotate ⟨Design.ring.context.engine, none⟩ ⟨⟨0⟩, .max⟩ ConeBuilder.ringDepths,
      .push 3 node]
    l.depths = [-2, 3] ∧ l.levelIds (-2) = [⟨1⟩] ∧ l.levelIds 3 = [⟨0⟩, ⟨2⟩] :=
  ⟨rfl, rfl, rfl⟩

end TimingExplorer.NodesByDepth
