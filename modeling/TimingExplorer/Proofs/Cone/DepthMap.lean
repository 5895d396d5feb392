import Mathlib.Data.Finset.Card
import TimingExplorer.Cone.DepthMap

/-!
Depth maps by their pins: which pin lies at which depth, and what sorting a list of pins by depth
gives. A map without empty levels has at least as many pins as levels.
-/
namespace TimingExplorer

/-! Tables by depth, read out level by level. -/

section Levels

variable {α β : Type} {table : Std.TreeMap Int α} {depth : Int} {item : β}

theorem mem_flatMap_levels (items : α → List β) :
    (depth, item) ∈ (table.toList.flatMap fun (depth, level) => (items level).map (depth, ·)) ↔
      ∃ level, table[depth]? = some level ∧ item ∈ items level := by
  simp only [List.mem_flatMap, List.mem_map, Prod.exists, Prod.mk.injEq,
    Std.TreeMap.mem_toList_iff_getElem?_eq_some]
  constructor
  · rintro ⟨_, level, found, _, member, rfl, rfl⟩
    exact ⟨level, found, member⟩
  · rintro ⟨level, found, member⟩
    exact ⟨depth, level, found, item, member, rfl, rfl⟩

/-- If the items of each level are in order, all of them are in order of depth first. -/
theorem pairwise_flatMap_levels {R : β → β → Prop} (items : α → List β)
    (each : ∀ (depth : Int) level, table[depth]? = some level → (items level).Pairwise R) :
    (table.toList.flatMap fun (depth, level) => (items level).map (depth, ·)).Pairwise
      fun e f => e.1 < f.1 ∨ e.1 = f.1 ∧ R e.2 f.2 := by
  rw [List.pairwise_flatMap]
  constructor
  · rintro ⟨depth, level⟩ found
    rw [List.pairwise_map]
    refine (each depth level ?_).imp fun before => .inr ⟨rfl, before⟩
    exact Std.TreeMap.mem_toList_iff_getElem?_eq_some.mp found
  · refine Std.TreeMap.ordered_keys_toList.imp ?_
    rintro ⟨depth, level⟩ ⟨depth', level'⟩ before e member f member'
    obtain ⟨_, _, rfl⟩ := List.mem_map.mp member
    obtain ⟨_, _, rfl⟩ := List.mem_map.mp member'
    exact .inl (Std.compare_eq_lt.mp before)

end Levels

namespace DepthMap

variable {m : DepthMap} {d e : Int} {p q : PinId}

/-- The pin is stored at the depth. -/
def At (m : DepthMap) (d : Int) (q : PinId) : Prop := ∃ pins, m[d]? = some pins ∧ q ∈ pins

/-- Every stored level has a pin. -/
def Populated (m : DepthMap) : Prop := ∀ d ∈ m, ∃ q, m.At d q

theorem mem_iff_getElem? : d ∈ m ↔ ∃ pins, m[d]? = some pins := by
  rw [Std.TreeMap.mem_iff_isSome_getElem?, Option.isSome_iff_exists]

theorem At.mem (stored : m.At d q) : d ∈ m := by
  obtain ⟨pins, level, _⟩ := stored
  exact mem_iff_getElem?.mpr ⟨pins, level⟩

theorem not_at_empty : ¬ At ∅ d q := by
  rintro ⟨pins, level, _⟩
  simp at level

theorem getElem?_add (m : DepthMap) (d e : Int) (p : PinId) :
    (m.add d p)[e]? = if d = e then some ((m.getD d ∅).insert p) else m[e]? := by
  simp only [add, Std.TreeMap.getElem?_insert, Std.compare_eq_iff_eq]

theorem at_add : (m.add d p).At e q ↔ (d = e ∧ p = q) ∨ m.At e q := by
  simp only [At, getElem?_add]
  by_cases same : d = e
  · subst same
    simp only [if_true, Option.some.injEq, exists_eq_left', true_and, Std.TreeSet.mem_insert,
      Std.compare_eq_iff_eq, Std.TreeMap.getD_eq_getD_getElem?]
    cases m[d]? <;> simp
  · simp only [same, if_false, false_and, false_or]

theorem Populated.add (populated : m.Populated) (d : Int) (p : PinId) : (m.add d p).Populated := by
  intro e stored
  by_cases same : d = e
  · exact ⟨p, at_add.mpr (.inl ⟨same, rfl⟩)⟩
  · obtain ⟨pins, level⟩ := mem_iff_getElem?.mp stored
    rw [getElem?_add, if_neg same] at level
    obtain ⟨q, old⟩ := populated e (mem_iff_getElem?.mpr ⟨pins, level⟩)
    exact ⟨q, at_add.mpr (.inr old)⟩

theorem at_foldl_add (depths : List (PinId × Int)) :
    (depths.foldl (fun m (pin, depth) => add m depth pin) m).At d q ↔
      (q, d) ∈ depths ∨ m.At d q := by
  induction depths generalizing m with
  | nil => simp
  | cons entry rest ih =>
    obtain ⟨p, e⟩ := entry
    simp only [List.foldl_cons, ih, at_add, List.mem_cons, Prod.mk.injEq]
    constructor
    · rintro (later | ⟨rfl, rfl⟩ | old)
      · exact .inl (.inr later)
      · exact .inl (.inl ⟨rfl, rfl⟩)
      · exact .inr old
    · rintro ((⟨rfl, rfl⟩ | later) | old)
      · exact .inr (.inl ⟨rfl, rfl⟩)
      · exact .inl later
      · exact .inr (.inr old)

theorem at_ofDepths (depths : List (PinId × Int)) : (ofDepths depths).At d q ↔ (q, d) ∈ depths := by
  rw [ofDepths, at_foldl_add, or_iff_left not_at_empty]

theorem populated_ofDepths (depths : List (PinId × Int)) : (ofDepths depths).Populated := by
  have grown (m : DepthMap) (populated : m.Populated) :
      (depths.foldl (fun m (pin, depth) => add m depth pin) m).Populated := by
    induction depths generalizing m with
    | nil => exact populated
    | cons entry rest ih => exact ih _ (populated.add entry.2 entry.1)
  exact grown ∅ fun d stored => absurd stored Std.TreeMap.not_mem_emptyc

theorem mem_entries : (d, q) ∈ m.entries ↔ m.At d q := by
  rw [entries, mem_flatMap_levels]
  simp only [At, Std.TreeSet.mem_toList]

/-- The entries stand in order of depth, and those of one depth in order of pin. -/
theorem pairwise_entries (m : DepthMap) :
    m.entries.Pairwise fun e f => e.1 < f.1 ∨ e.1 = f.1 ∧ e.2.raw < f.2.raw := by
  refine pairwise_flatMap_levels (R := fun p q : PinId => p.raw < q.raw) _ fun depth pins _ => ?_
  refine Std.TreeSet.ordered_toList.imp fun {p q} before => ?_
  exact Std.compare_eq_lt.mp (Id.compare_eq p q ▸ before)

/-- If no level is missing down to a depth, the map has more pins than that. -/
theorem lt_length_entries (populated : m.Populated) {deepest : Nat}
    (levels : ∀ n ≤ deepest, (n : Int) ∈ m) : deepest < m.entries.length := by
  have covered : (Finset.range (deepest + 1)).image (fun n : Nat => (n : Int)) ⊆
      (m.entries.map Prod.fst).toFinset := by
    intro d member
    obtain ⟨n, below, rfl⟩ := Finset.mem_image.mp member
    obtain ⟨q, stored⟩ := populated n (levels n (Nat.le_of_lt_succ (Finset.mem_range.mp below)))
    exact List.mem_toFinset.mpr (List.mem_map.mpr ⟨(↑n, q), mem_entries.mpr stored, rfl⟩)
  have distinct : Function.Injective (fun n : Nat => (n : Int)) := fun _ _ => Int.ofNat.inj
  have count := (Finset.card_le_card covered).trans (List.toFinset_card_le _)
  rw [Finset.card_image_of_injective _ distinct, Finset.card_range, List.length_map] at count
  omega

end DepthMap

end TimingExplorer
