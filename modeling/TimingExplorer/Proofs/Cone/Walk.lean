import Mathlib.Data.Set.Card
import Mathlib.Order.Lattice.Nat
import TimingExplorer.Id

/-!
Walks over pins, whose steps lead through a cell or across a net. Only the latter count. The
distance of a pin is the least count of any walk to it; the distances within reach of a seed have no
gap, so they stay below the number of pins, and both ends of a walk change places with its steps.
-/
namespace TimingExplorer.Cone

/-- A walk from the seed to a pin that crosses so many nets. -/
inductive Walk (cell net : PinId → PinId → Prop) (seed : PinId) : PinId → Nat → Prop where
  | start : Walk cell net seed seed 0
  | throughCell {p q : PinId} {n : Nat} :
      Walk cell net seed p n → cell p q → Walk cell net seed q n
  | acrossNet {p q : PinId} {n : Nat} :
      Walk cell net seed p n → net p q → Walk cell net seed q (n + 1)

/-- The pins that some walk from the seed leads to. -/
def Within (cell net : PinId → PinId → Prop) (seed : PinId) : Set PinId :=
  {q | ∃ n, Walk cell net seed q n}

/-- The least number of nets that a walk from the seed to a pin crosses. -/
def Distance (cell net : PinId → PinId → Prop) (seed q : PinId) (d : Nat) : Prop :=
  IsLeast {n | Walk cell net seed q n} d

variable {cell net : PinId → PinId → Prop} {seed p q r : PinId} {m n d e : Nat}

theorem Walk.within (walk : Walk cell net seed q n) : q ∈ Within cell net seed := ⟨n, walk⟩

theorem Walk.trans (first : Walk cell net p q m) (second : Walk cell net q r n) :
    Walk cell net p r (m + n) := by
  induction second with
  | start => exact first
  | throughCell _ step ih => exact ih.throughCell step
  | acrossNet _ step ih => exact ih.acrossNet step

/-- Every walk can be gone backwards where all steps can. -/
theorem Walk.reverse {cell' net' : PinId → PinId → Prop} (cells : ∀ p q, cell p q → cell' q p)
    (nets : ∀ p q, net p q → net' q p) (walk : Walk cell net p q n) : Walk cell' net' q p n := by
  induction walk with
  | start => exact .start
  | throughCell _ step ih =>
    simpa only [Nat.zero_add] using (Walk.start.throughCell (cells _ _ step)).trans ih
  | acrossNet _ step ih =>
    simpa only [Nat.zero_add, Nat.add_comm 1] using (Walk.start.acrossNet (nets _ _ step)).trans ih

theorem distance_seed : Distance cell net seed seed 0 := ⟨.start, fun _ _ => Nat.zero_le _⟩

theorem Distance.walk (least : Distance cell net seed q d) : Walk cell net seed q d := least.1

theorem Distance.le (least : Distance cell net seed q d) (walk : Walk cell net seed q n) : d ≤ n :=
  least.2 walk

theorem Distance.unique (first : Distance cell net seed q d) (second : Distance cell net seed q e) :
    d = e :=
  IsLeast.unique first second

theorem Walk.exists_distance (walk : Walk cell net seed q n) :
    ∃ d ≤ n, Distance cell net seed q d :=
  ⟨sInf {n | Walk cell net seed q n}, Nat.sInf_le walk,
    Nat.sInf_mem ⟨n, walk⟩, fun _ other => Nat.sInf_le other⟩

/-- The walk that gives a distance passes through every lesser one: its last net is crossed from a
pin one level below. -/
theorem Distance.exists_pred (least : Distance cell net seed q (n + 1)) :
    ∃ p, Distance cell net seed p n := by
  obtain ⟨walk, minimal⟩ := least
  generalize count : n + 1 = k at walk minimal
  induction walk with
  | start => omega
  | throughCell _ step ih =>
    exact ih count fun _ other => minimal (Walk.throughCell other step)
  | @acrossNet p _ _ walk step _ =>
    obtain rfl := Nat.succ.inj count
    refine ⟨p, walk, fun k other => ?_⟩
    have := minimal (other.acrossNet step)
    omega

theorem Distance.exists_of_le (least : Distance cell net seed q d) (below : m ≤ d) :
    ∃ p, Distance cell net seed p m := by
  induction d generalizing q with
  | zero => exact ⟨q, Nat.le_zero.mp below ▸ least⟩
  | succ d ih =>
    rcases Nat.lt_or_eq_of_le below with lower | rfl
    · obtain ⟨p, pred⟩ := least.exists_pred
      exact ih pred (Nat.le_of_lt_succ lower)
    · exact ⟨q, least⟩

/-- There is a pin of its own for every level up to a distance. -/
theorem Distance.lt_ncard (finite : (Within cell net seed).Finite)
    (least : Distance cell net seed q d) : d < (Within cell net seed).ncard := by
  have levels : ∀ m : Fin (d + 1), ∃ p, Distance cell net seed p m :=
    fun m => least.exists_of_le (Nat.le_of_lt_succ m.isLt)
  choose pin distances using levels
  have injective : Function.Injective pin := fun i j same =>
    Fin.ext ((distances i).unique (same ▸ distances j))
  have inside : Set.range pin ⊆ Within cell net seed := by
    rintro _ ⟨m, rfl⟩
    exact (distances m).walk.within
  have bound := Set.ncard_le_ncard inside finite
  rw [Set.ncard_range_of_injective injective, Nat.card_fin] at bound
  omega

theorem Distance.reverse {cell' net' : PinId → PinId → Prop} (cells : ∀ p q, cell p q ↔ cell' q p)
    (nets : ∀ p q, net p q ↔ net' q p) :
    Distance cell net p q d ↔ Distance cell' net' q p d := by
  have same : {n | Walk cell net p q n} = {n | Walk cell' net' q p n} := by
    ext n
    exact ⟨Walk.reverse (fun a b => (cells a b).mp) (fun a b => (nets a b).mp),
      Walk.reverse (fun a b => (cells b a).mpr) (fun a b => (nets b a).mpr)⟩
  rw [Distance, Distance, same]

end TimingExplorer.Cone
