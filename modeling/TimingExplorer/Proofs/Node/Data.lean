import TimingExplorer.Node.Arena

/-!
What the operations of a node arena do to the nodes apart from their links: linking leaves all of it
alone, new nodes come after the old ones, and compaction moves the kept nodes to the front in the
order in which they are listed.
-/
namespace TimingExplorer

namespace PathNode

/-- The node without its links. -/
def unlinked (n : PathNode) : PathNode := { n with paired := ∅, instanceNode := none }

end PathNode

theorem map_some_filterMap {α β : Type} {f : α → Option β} {items : List α}
    (found : ∀ item ∈ items, (f item).isSome = true) :
    (items.filterMap f).map some = items.map f := by
  induction items with
  | nil => rfl
  | cons first rest ih =>
    obtain ⟨image, here⟩ := Option.isSome_iff_exists.mp (found first List.mem_cons_self)
    have later := ih fun item member => found item (List.mem_cons_of_mem _ member)
    rw [List.filterMap_cons_some here, List.map_cons, List.map_cons, later, here]

theorem map_getElem?_range {α : Type} (items : List α) :
    ((List.range items.length).map fun i => items[i]?) = items.map some := by
  refine List.ext_getElem (by simp) fun i inside _ => ?_
  rw [List.length_map, List.length_range] at inside
  simp [List.getElem?_eq_getElem inside]

theorem place_unique {α : Type} {items : List α} (distinct : items.Nodup) {i j : Nat} {item : α}
    (first : items[i]? = some item) (second : items[j]? = some item) : i = j := by
  have inside := (List.getElem?_eq_some_iff.mp first).1
  exact (List.getElem?_inj inside distinct).mp (first.trans second.symm)

section Tables

variable {κ α : Type} [Ord κ] [Std.TransOrd κ] [DecidableEq κ] [Std.LawfulEqOrd κ]
  {entries : List (κ × α)} {key : κ} {item : α}

/-- A table made from a list holds the last entry that is listed under a key. -/
theorem getElem?_ofList (entries : List (κ × α)) (key : κ) :
    (Std.TreeMap.ofList entries)[key]? = (entries.reverse.find? (·.1 = key)).map Prod.snd := by
  rw [Std.TreeMap.ofList_eq_insertMany_empty, Std.TreeMap.getElem?_insertMany_list,
    Std.TreeMap.getElem?_emptyc, Option.or_none, List.findSomeRev?_eq_findSome?_reverse]
  simp only [Std.compare_eq_iff_eq]
  induction entries.reverse with
  | nil => rfl
  | cons first rest ih =>
    rw [List.findSome?_cons, List.find?_cons]
    by_cases same : first.1 = key
    · simp [same]
    · simp [same, ih]

/-- Only a value that is listed under the key is found. -/
theorem mem_of_getElem?_ofList (found : (Std.TreeMap.ofList entries)[key]? = some item) :
    (key, item) ∈ entries := by
  rw [getElem?_ofList] at found
  obtain ⟨⟨k, v⟩, last, rfl⟩ := Option.map_eq_some_iff.mp found
  obtain ⟨same, -⟩ := List.find?_eq_some_iff_append.mp last
  obtain rfl := of_decide_eq_true same
  exact List.mem_reverse.mp (List.mem_of_find?_eq_some last)

end Tables

namespace NodeArena

variable {a : NodeArena} {id x y : NodeId} {keep : List NodeId}

/-- What an arena holds under an id, without its links. -/
def data (a : NodeArena) (id : NodeId) : Option PathNode := (a.get? id).map PathNode.unlinked

theorem get?_eq (a : NodeArena) (raw : Nat) : a.get? ⟨raw⟩ = a.nodes.toList[raw]? := by
  simp [get?, Arena.get?, Arena.toList]

theorem contains_iff : a.contains id = true ↔ id.raw < a.size := Arena.contains_iff _ _

theorem isSome_get? : (a.get? id).isSome = a.contains id := Arena.isSome_get? _ _

theorem isSome_data : (a.data id).isSome = a.contains id := by
  rw [data, Option.isSome_map, isSome_get?]

theorem size_eq_of_data_eq {b : NodeArena} (same : a.data = b.data) : a.size = b.size := by
  have below (raw : Nat) : raw < a.size ↔ raw < b.size := by
    rw [← @contains_iff a ⟨raw⟩, ← @contains_iff b ⟨raw⟩, ← isSome_data, ← isSome_data, same]
  have := below a.size
  have := below b.size
  omega

/-! Linking changes nothing else. -/

theorem data_modify {f : PathNode → PathNode} (links : ∀ n, (f n).unlinked = n.unlinked) :
    (a.modify x f).data = a.data := by
  funext id
  rw [data, get?, modify, Arena.get?_modify, data, get?]
  split
  · cases a.nodes.get? id with
    | none => rfl
    | some n => exact congrArg some (links n)
  · rfl

theorem data_pair : (a.pair x y).2.data = a.data := by
  unfold pair
  split
  · rw [data_modify, data_modify]
    all_goals
      intro n
      rfl
  · rfl

theorem data_setInstanceNode : (a.setInstanceNode x y).2.data = a.data := by
  unfold setInstanceNode
  split
  · rw [data_modify]
    intro n
    rfl
  · rfl

/-! New nodes are numbered after the old ones. -/

theorem toList_allocAll (fresh : List PathNode) :
    (a.allocAll fresh).2.nodes.toList = a.nodes.toList ++ fresh := by
  induction fresh generalizing a with
  | nil => exact (List.append_nil _).symm
  | cons node rest ih =>
    rw [allocAll, ih]
    simp [alloc, Arena.push, Arena.toList]

theorem ids_allocAll (fresh : List PathNode) :
    (a.allocAll fresh).1 = (List.range' a.size fresh.length).map Id.mk := by
  induction fresh generalizing a with
  | nil => rfl
  | cons node rest ih =>
    have later := @ih (a.alloc node).2
    simp only [allocAll, later]
    simp [alloc, Arena.nextId, size, Arena.size, Arena.push, List.range'_succ]

theorem size_eq_length (a : NodeArena) : a.size = a.nodes.toList.length := rfl

theorem get?_allocAll (fresh : List PathNode) (known : a.contains id = true) :
    (a.allocAll fresh).2.get? id = a.get? id := by
  obtain ⟨raw⟩ := id
  have inside : raw < a.nodes.toList.length := contains_iff.mp known
  rw [get?_eq, toList_allocAll, List.getElem?_append_left inside, get?_eq]

theorem get?_allocAll_fresh (fresh : List PathNode) (i : Nat) :
    (a.allocAll fresh).2.get? ⟨a.size + i⟩ = fresh[i]? := by
  rw [get?_eq, toList_allocAll, size_eq_length, List.getElem?_append_right (Nat.le_add_right _ _),
    Nat.add_sub_cancel_left]

theorem map_get?_allocAll (fresh : List PathNode) :
    (a.allocAll fresh).1.map (a.allocAll fresh).2.get? = fresh.map some := by
  rw [ids_allocAll, List.range'_eq_map_range, List.map_map, List.map_map, ← map_getElem?_range]
  refine List.map_congr_left fun i _ => ?_
  rw [Function.comp_apply, Function.comp_apply, get?_allocAll_fresh]

/-! Compaction numbers the kept nodes by their places in the list. -/

/-- The new id that compaction gives to an old one. -/
def newId? (a : NodeArena) (keep : List NodeId) (old : NodeId) : Option NodeId :=
  (Std.TreeMap.ofList (a.renumbering keep))[old]?

theorem ids_compact (a : NodeArena) (keep : List NodeId) :
    (a.compact keep).1 = (List.range (keep.filter a.contains).length).map Id.mk := by
  simp [compact, renumbering, List.range_eq_range', ← List.zipIdx_map_snd, Function.comp_def]

theorem toList_compact (a : NodeArena) (keep : List NodeId) :
    (a.compact keep).2.nodes.toList =
      ((keep.filter a.contains).filterMap a.get?).map (relink (a.newId? keep)) := by
  have olds : (a.renumbering keep).map Prod.fst = keep.filter a.contains := by
    simp [renumbering, Function.comp_def]
  rw [← olds, List.filterMap_map]
  rfl

theorem kept_nodes (a : NodeArena) (keep : List NodeId) :
    ((keep.filter a.contains).filterMap a.get?).map some = (keep.filter a.contains).map a.get? := by
  refine map_some_filterMap fun id member => ?_
  rw [isSome_get?]
  exact (List.mem_filter.mp member).2

theorem size_compact (a : NodeArena) (keep : List NodeId) :
    (a.compact keep).2.size = (keep.filter a.contains).length := by
  have count := congrArg List.length (kept_nodes a keep)
  rw [List.length_map, List.length_map] at count
  rw [size_eq_length, toList_compact, List.length_map, count]

theorem map_get?_compact (a : NodeArena) (keep : List NodeId) :
    (a.compact keep).1.map (a.compact keep).2.get? =
      (keep.filter a.contains).map fun id => (a.get? id).map (relink (a.newId? keep)) := by
  rw [ids_compact, ← size_compact, List.map_map]
  calc (List.range (a.compact keep).2.size).map ((a.compact keep).2.get? ∘ Id.mk)
    _ = (a.compact keep).2.nodes.toList.map some := by
      rw [← map_getElem?_range]
      exact List.map_congr_left fun i _ => get?_eq _ i
    _ = (((keep.filter a.contains).filterMap a.get?).map some).map
          (Option.map (relink (a.newId? keep))) := by
      rw [toList_compact, List.map_map, List.map_map]
      rfl
    _ = _ := by
      rw [kept_nodes, List.map_map]
      rfl

/-- Apart from their links the kept nodes are the same as before. -/
theorem map_data_compact (a : NodeArena) (keep : List NodeId) :
    (a.compact keep).1.map (a.compact keep).2.data = (keep.filter a.contains).map a.data := by
  have nodes := congrArg (List.map (Option.map PathNode.unlinked)) (map_get?_compact a keep)
  simp only [List.map_map] at nodes
  refine nodes.trans (List.map_congr_left fun id _ => ?_)
  rw [Function.comp_apply, Option.map_map]
  rfl

end NodeArena

end TimingExplorer
