import TimingExplorer.Proofs.Node.Links

/-!
What a compaction keeps. The listed nodes that belong to the arena get their places in the list as
ids, and the links among them move along; whatever led to another node is gone.
-/
namespace TimingExplorer

namespace NodeArena

variable {a : NodeArena} {keep : List NodeId} {kind : LinkKind} {u v x y : NodeId}

theorem linked_compact (distinct : keep.Nodup) : (a.compact keep).2.Linked kind u v ↔
    ∃ x y, (keep.filter a.contains)[u.raw]? = some x ∧
      (keep.filter a.contains)[v.raw]? = some y ∧ a.Linked kind x y := by
  rw [(renames_compact distinct).linked]
  simp only [newId?_eq_some_iff distinct]

theorem linked_compact_iff (distinct : keep.Nodup)
    (first : (keep.filter a.contains)[u.raw]? = some x)
    (second : (keep.filter a.contains)[v.raw]? = some y) :
    (a.compact keep).2.Linked kind u v ↔ a.Linked kind x y := by
  rw [linked_compact distinct]
  constructor
  · rintro ⟨x', y', first', second', linked⟩
    obtain rfl := Option.some.inj (first.symm.trans first')
    obtain rfl := Option.some.inj (second.symm.trans second')
    exact linked
  · exact fun linked => ⟨x, y, first, second, linked⟩

theorem contains_compact_of_place (place : (keep.filter a.contains)[u.raw]? = some x) :
    (a.compact keep).2.contains u = true := by
  rw [contains_iff, size_compact]
  exact (List.getElem?_eq_some_iff.mp place).1

theorem exists_node_compact (place : (keep.filter a.contains)[u.raw]? = some x) :
    ∃ n m, a.get? x = some n ∧ (a.compact keep).2.get? u = some m ∧ m.unlinked = n.unlinked := by
  have known : a.contains x = true := (List.mem_filter.mp (List.mem_of_getElem? place)).2
  obtain ⟨n, found⟩ := Option.isSome_iff_exists.mp (isSome_get?.trans known)
  refine ⟨n, relink (a.newId? keep) n, found, ?_, rfl⟩
  rw [get?_compact, place, Option.bind_some, found, Option.map_some]

/-- What compaction makes of an arena, whatever its links. Just the listed nodes that belong to the
arena are kept, each under its place among them and the same apart from its links. Links join the
nodes that were joined before, so none leads out of the arena, and those that were mutual or never
led back to the node itself still are and do. -/
theorem compact_renumbers (a : NodeArena) (distinct : keep.Nodup) :
    let kept := keep.filter a.contains
    let b := (a.compact keep).2
    ((a.compact keep).1 = (List.range kept.length).map Id.mk ∧ b.size = kept.length) ∧
      (∀ i x, kept[i]? = some x →
        ∃ n m, a.get? x = some n ∧ b.get? ⟨i⟩ = some m ∧ m.unlinked = n.unlinked) ∧
      (∀ kind i j x y, kept[i]? = some x → kept[j]? = some y →
        (b.Linked kind ⟨i⟩ ⟨j⟩ ↔ a.Linked kind x y)) ∧
      (∀ kind u v, b.Linked kind u v → ∃ x y, kept[u.raw]? = some x ∧ kept[v.raw]? = some y ∧
        a.Linked kind x y) ∧
      ∀ kind,
        (∀ u v, b.Linked kind u v → b.contains u = true ∧ b.contains v = true) ∧
        ((∀ x y, a.Linked kind x y → a.Linked kind y x) →
          ∀ u v, b.Linked kind u v → b.Linked kind v u) ∧
        ((∀ x, ¬ a.Linked kind x x) → ∀ u, ¬ b.Linked kind u u) := by
  intro kept b
  refine ⟨⟨ids_compact a keep, size_compact a keep⟩, fun i x => exists_node_compact,
    fun kind i j x y => linked_compact_iff distinct,
    fun kind u v => (linked_compact distinct).mp, fun kind => ⟨?_, ?_, ?_⟩⟩
  · intro u v linked
    obtain ⟨x, y, first, second, _⟩ := (linked_compact distinct).mp linked
    exact ⟨contains_compact_of_place first, contains_compact_of_place second⟩
  · intro symmetric u v linked
    obtain ⟨x, y, first, second, before⟩ := (linked_compact distinct).mp linked
    exact (linked_compact distinct).mpr ⟨y, x, second, first, symmetric x y before⟩
  · intro irreflexive u linked
    obtain ⟨x, y, first, second, before⟩ := (linked_compact distinct).mp linked
    obtain rfl := Option.some.inj (first.symm.trans second)
    exact irreflexive x before

/-- Three nodes: the first is paired with the others, the second points at the third, and the third
at the first. -/
def threeLinked : NodeArena :=
  let node (raw : Nat) : PathNode := .placeholder (.ofBlock ⟨raw⟩) ⟨raw⟩ {}
  let a := (empty.allocAll [node 0, node 1, node 2]).2
  let a := ((a.pair ⟨0⟩ ⟨1⟩).2.pair ⟨0⟩ ⟨2⟩).2
  ((a.setInstanceNode ⟨2⟩ ⟨0⟩).2.setInstanceNode ⟨1⟩ ⟨2⟩).2

/-- The last node comes first, the middle one is dropped, and the id 7 was never given out. -/
theorem compact_renumbers_threeLinked :
    let keep : List NodeId := [⟨2⟩, ⟨7⟩, ⟨0⟩]
    let b := (threeLinked.compact keep).2
    keep.Nodup ∧ (threeLinked.compact keep).1 = [⟨0⟩, ⟨1⟩] ∧ b.Linked .pair ⟨1⟩ ⟨0⟩ ∧
      b.Linked .counterpart ⟨0⟩ ⟨1⟩ ∧ ∀ v, b.Linked .pair ⟨1⟩ v → v = ⟨0⟩ := by
  intro keep b
  have distinct : keep.Nodup := by decide
  have pairs : threeLinked.Linked .pair ⟨0⟩ ⟨2⟩ := ⟨_, rfl, rfl⟩
  have points : threeLinked.Linked .counterpart ⟨2⟩ ⟨0⟩ := ⟨_, rfl, rfl⟩
  have notItself : ¬ threeLinked.Linked .pair ⟨0⟩ ⟨0⟩ := by
    rintro ⟨n, found, member⟩
    obtain rfl := Option.some.inj found
    exact Bool.false_ne_true member
  obtain ⟨⟨ids, _⟩, _, links, origin, _⟩ := compact_renumbers threeLinked distinct
  refine ⟨distinct, ids.trans rfl, (links .pair 1 0 ⟨0⟩ ⟨2⟩ rfl rfl).mpr pairs,
    (links .counterpart 0 1 ⟨2⟩ ⟨0⟩ rfl rfl).mpr points, fun v linked => ?_⟩
  obtain ⟨x, y, first, second, before⟩ := origin .pair ⟨1⟩ v linked
  obtain rfl : ⟨0⟩ = x := Option.some.inj first
  obtain ⟨raw⟩ := v
  match raw with
  | 0 => rfl
  | 1 =>
    obtain rfl : ⟨0⟩ = y := Option.some.inj second
    exact absurd before notItself
  | raw + 2 => cases second

end NodeArena

end TimingExplorer
