import TimingExplorer.Node
import TimingExplorer.Proofs.Design.Written

/-!
The two boxes of a terminal. The bounding box depends on nothing but which rectangles there are, and
of normalised rectangles it is the least that covers them all. The largest box is the last of the
shapes with the largest area. Areas are signed, and exact where width and height fit in 64 bits; a
wider shape counts with the area that is left after wrapping around.
-/
namespace TimingExplorer

namespace Rect

variable {r s t b best : Rect} {rects others shapes done rest : List Rect}
  {f : Rect → Int} {op : Int → Int → Int} {lo hi m n : Int}

/-! The bounding box by its coordinates, and as a merge that no order or repetition changes. -/

section Bounding

theorem bounding?_eq_none_iff : bounding? rects = none ↔ rects = [] := by
  cases rects <;> simp [bounding?]

theorem map_foldl_merge (hom : ∀ r s, f (r.merge s) = op (f r) (f s)) :
    f (rest.foldl merge r) = (rest.map f).foldl op (f r) := by
  rw [List.foldl_map]
  exact (List.foldl_hom f fun r s => (hom r s).symm).symm

theorem map_bounding?_min (hom : ∀ r s, f (r.merge s) = min (f r) (f s)) (rects : List Rect) :
    (bounding? rects).map f = (rects.map f).min? := by
  cases rects with
  | nil => rfl
  | cons r rest => exact congrArg some (map_foldl_merge hom)

theorem map_bounding?_max (hom : ∀ r s, f (r.merge s) = max (f r) (f s)) (rects : List Rect) :
    (bounding? rects).map f = (rects.map f).max? := by
  cases rects with
  | nil => rfl
  | cons r rest => exact congrArg some (map_foldl_merge hom)

theorem bounding?_append (rects others : List Rect) :
    bounding? (rects ++ others) = (bounding? rects).merge merge (bounding? others) := by
  cases rects with
  | nil => exact Option.merge_none_left.symm
  | cons r rest =>
    cases others with
    | nil => rw [List.append_nil]; rfl
    | cons s after =>
      simp only [bounding?, List.cons_append, List.foldl_append, List.foldl_cons, List.foldl_assoc,
        Option.merge]

theorem bounding?_append_comm (rects others : List Rect) :
    bounding? (rects ++ others) = bounding? (others ++ rects) := by
  rw [bounding?_append, bounding?_append]
  exact Std.Commutative.comm _ _

/-- A rectangle that is there already adds nothing. -/
theorem bounding?_cons_of_mem (member : r ∈ rects) : bounding? (r :: rects) = bounding? rects := by
  obtain ⟨before, after, rfl⟩ := List.append_of_mem member
  have twice : (bounding? [r]).merge merge (bounding? [r]) = bounding? [r] :=
    Std.IdempotentOp.idempotent _
  calc bounding? ([r] ++ (before ++ ([r] ++ after)))
    _ = (bounding? before).merge merge
          (((bounding? [r]).merge merge (bounding? [r])).merge merge (bounding? after)) := by
      simp only [bounding?_append]
      ac_rfl
    _ = bounding? (before ++ ([r] ++ after)) := by
      rw [twice, bounding?_append, bounding?_append]

theorem bounding?_append_of_subset (within : ∀ r ∈ others, r ∈ rects) :
    bounding? (others ++ rects) = bounding? rects := by
  induction others with
  | nil => rfl
  | cons r rest ih =>
    obtain ⟨first, later⟩ := List.forall_mem_cons.mp within
    rw [List.cons_append, bounding?_cons_of_mem (List.mem_append_right _ first), ih later]

theorem bounding?_congr (same : ∀ r, r ∈ others ↔ r ∈ rects) :
    bounding? others = bounding? rects := by
  rw [← bounding?_append_of_subset fun r => (same r).mp, bounding?_append_comm,
    bounding?_append_of_subset fun r => (same r).mpr]

end Bounding

/-! Covering. Only of a normalised rectangle do the points tell the corners. -/

section Covering

/-- No low coordinate lies above the high one. -/
def Normalised (r : Rect) : Prop := r.xLo ≤ r.xHi ∧ r.yLo ≤ r.yHi

instance (r : Rect) : Decidable r.Normalised := inferInstanceAs (Decidable (_ ∧ _))

/-- A point lies in a rectangle or on its border. -/
def Holds (r : Rect) (x y : Int) : Prop := (r.xLo ≤ x ∧ x ≤ r.xHi) ∧ r.yLo ≤ y ∧ y ≤ r.yHi

/-- Every point of `s` lies in `r`. -/
def Covers (r s : Rect) : Prop := ∀ x y, s.Holds x y → r.Holds x y

theorem normalised_iff : r.Normalised ↔ ∃ x₀ y₀ x₁ y₁, r = ofCorners x₀ y₀ x₁ y₁ := by
  constructor
  · rintro ⟨xs, ys⟩
    refine ⟨r.xLo, r.yLo, r.xHi, r.yHi, ?_⟩
    rw [ofCorners, Int.min_eq_left xs, Int.max_eq_right xs, Int.min_eq_left ys, Int.max_eq_right ys]
  · rintro ⟨x₀, y₀, x₁, y₁, rfl⟩
    simp only [Normalised, ofCorners]
    omega

theorem Normalised.covers_iff (normalised : s.Normalised) : r.Covers s ↔
    (r.xLo ≤ s.xLo ∧ s.xHi ≤ r.xHi) ∧ r.yLo ≤ s.yLo ∧ s.yHi ≤ r.yHi := by
  obtain ⟨xs, ys⟩ := normalised
  constructor
  · intro covers
    obtain ⟨⟨left, _⟩, low, _⟩ := covers s.xLo s.yLo ⟨⟨Int.le_refl _, xs⟩, Int.le_refl _, ys⟩
    obtain ⟨⟨_, right⟩, _, high⟩ := covers s.xHi s.yHi ⟨⟨xs, Int.le_refl _⟩, ys, Int.le_refl _⟩
    exact ⟨⟨left, right⟩, low, high⟩
  · rintro ⟨⟨left, right⟩, low, high⟩ x y ⟨⟨_, _⟩, _, _⟩
    exact ⟨⟨by omega, by omega⟩, by omega, by omega⟩

theorem Normalised.merge (first : r.Normalised) (second : s.Normalised) :
    (r.merge s).Normalised := by
  obtain ⟨xs, ys⟩ := first
  obtain ⟨xs', ys'⟩ := second
  simp only [Normalised, Rect.merge]
  omega

/-- The merge of two rectangles is the least that covers both. -/
theorem covers_merge_iff (first : r.Normalised) (second : s.Normalised) :
    t.Covers (r.merge s) ↔ t.Covers r ∧ t.Covers s := by
  rw [(first.merge second).covers_iff, first.covers_iff, second.covers_iff]
  simp only [merge]
  omega

theorem normalised_foldl_merge (first : r.Normalised) (later : ∀ s ∈ rest, s.Normalised) :
    (rest.foldl merge r).Normalised := by
  induction rest generalizing r with
  | nil => exact first
  | cons s rest ih =>
    obtain ⟨second, later⟩ := List.forall_mem_cons.mp later
    exact ih (first.merge second) later

theorem covers_foldl_merge_iff (first : r.Normalised) (later : ∀ s ∈ rest, s.Normalised) :
    t.Covers (rest.foldl merge r) ↔ t.Covers r ∧ ∀ s ∈ rest, t.Covers s := by
  induction rest generalizing r with
  | nil => simp
  | cons s rest ih =>
    obtain ⟨second, later⟩ := List.forall_mem_cons.mp later
    rw [List.foldl_cons, ih (first.merge second) later, covers_merge_iff first second,
      List.forall_mem_cons, and_assoc]

theorem normalised_bounding? (normalised : ∀ r ∈ rects, r.Normalised)
    (found : bounding? rects = some b) : b.Normalised := by
  cases rects with
  | nil => cases found
  | cons r rest =>
    obtain ⟨first, later⟩ := List.forall_mem_cons.mp normalised
    obtain rfl := Option.some.inj found
    exact normalised_foldl_merge first later

theorem covers_bounding?_iff (normalised : ∀ r ∈ rects, r.Normalised)
    (found : bounding? rects = some b) : t.Covers b ↔ ∀ r ∈ rects, t.Covers r := by
  cases rects with
  | nil => cases found
  | cons r rest =>
    obtain ⟨first, later⟩ := List.forall_mem_cons.mp normalised
    obtain rfl := Option.some.inj found
    rw [covers_foldl_merge_iff first later, List.forall_mem_cons]

theorem bounding?_covers (normalised : ∀ r ∈ rects, r.Normalised)
    (found : bounding? rects = some b) : ∀ r ∈ rects, b.Covers r :=
  (covers_bounding?_iff normalised found).mp fun _ _ => id

end Covering

/-! Areas. Only the width and the height can go wrong: 128 bits hold the product of any two. -/

section Area

/-- A whole number that 128 bits can hold, one of them for the sign. -/
def IsInt128 (n : Int) : Prop :=
  -0x80000000000000000000000000000000 ≤ n ∧ n < 0x80000000000000000000000000000000

theorem isInt64_span (lo hi : Int) : IsInt64 (span lo hi) :=
  ⟨Int.le_bmod (by decide), Int.bmod_lt (by decide)⟩

theorem span_of_isInt64 (fits : IsInt64 (hi - lo)) : span lo hi = hi - lo :=
  Int.bmod_eq_of_le fits.1 fits.2

theorem isInt128_mul (first : IsInt64 m) (second : IsInt64 n) : IsInt128 (m * n) := by
  obtain ⟨low, high⟩ := first
  obtain ⟨low', high'⟩ := second
  have size : m.natAbs ≤ 0x8000000000000000 := by omega
  have size' : n.natAbs ≤ 0x8000000000000000 := by omega
  have product : (m * n).natAbs ≤ 0x8000000000000000 * 0x8000000000000000 := by
    rw [Int.natAbs_mul]
    exact Nat.mul_le_mul size size'
  unfold IsInt128
  omega

theorem area_eq (r : Rect) : r.area = r.width * r.height := by
  obtain ⟨low, high⟩ := isInt128_mul (isInt64_span r.xLo r.xHi) (isInt64_span r.yLo r.yHi)
  exact Int.bmod_eq_of_le low high

theorem area_of_isInt64 (width : IsInt64 (r.xHi - r.xLo)) (height : IsInt64 (r.yHi - r.yLo)) :
    r.area = (r.xHi - r.xLo) * (r.yHi - r.yLo) := by
  rw [area_eq, Rect.width, Rect.height, span_of_isInt64 width, span_of_isInt64 height]

/-- From the least coordinate to the greatest the width wraps around to -1. -/
example : area ⟨-0x8000000000000000, 0, 0x7fffffffffffffff, 3⟩ = -3 := by decide

end Area

/-! The choice of the largest shape. -/

section Largest

/-- The last of the shapes with the largest area: nothing before it has a larger area, and
everything after it has a smaller one. -/
def LastLargest (shapes : List Rect) (r : Rect) : Prop :=
  ∃ before after, shapes = before ++ r :: after ∧ (∀ s ∈ before, s.area ≤ r.area) ∧
    ∀ s ∈ after, s.area < r.area

theorem LastLargest.mem (last : LastLargest shapes r) : r ∈ shapes := by
  obtain ⟨before, after, rfl, _⟩ := last
  exact List.mem_append_right _ List.mem_cons_self

theorem LastLargest.snoc (last : LastLargest done best) (s : Rect) :
    LastLargest (done ++ [s]) (larger best s) := by
  obtain ⟨before, after, rfl, ahead, behind⟩ := last
  unfold larger
  split
  · next grows =>
    refine ⟨before ++ best :: after, [], rfl, ?_, List.forall_mem_nil _⟩
    rw [List.forall_mem_append, List.forall_mem_cons]
    exact ⟨fun t member => Int.le_trans (ahead t member) grows, grows,
      fun t member => Int.le_trans (Int.le_of_lt (behind t member)) grows⟩
  · next smaller =>
    refine ⟨before, after ++ [s], by rw [List.append_assoc, List.cons_append], ahead, ?_⟩
    rw [List.forall_mem_append, List.forall_mem_singleton]
    exact ⟨behind, Int.not_le.mp smaller⟩

theorem LastLargest.foldl (last : LastLargest done best) (rest : List Rect) :
    LastLargest (done ++ rest) (rest.foldl larger best) := by
  induction rest generalizing done best with
  | nil => rwa [List.append_nil]
  | cons s rest ih =>
    rw [List.append_cons]
    exact ih (last.snoc s)

/-- Of two different places the earlier one would have an area both as large and smaller. -/
theorem eq_of_tails_eq {between after after' : List Rect}
    (tails : r :: after = between ++ s :: after') (ahead : ∀ t ∈ between, t.area ≤ s.area)
    (behind : ∀ t ∈ after, t.area < r.area) : r = s := by
  cases between with
  | nil => exact (List.cons.inj tails).1
  | cons _ between =>
    obtain ⟨rfl, rfl⟩ := List.cons.inj tails
    have larger : r.area ≤ s.area := ahead r List.mem_cons_self
    have smaller : s.area < r.area := behind s (List.mem_append_right _ List.mem_cons_self)
    omega

theorem LastLargest.unique (first : LastLargest shapes r) (second : LastLargest shapes s) :
    r = s := by
  obtain ⟨before, after, rfl, ahead, behind⟩ := first
  obtain ⟨before', after', split, ahead', behind'⟩ := second
  rcases List.append_eq_append_iff.mp split with ⟨between, rfl, tails⟩ | ⟨between, rfl, tails⟩
  · exact eq_of_tails_eq tails (fun t member => ahead' t (List.mem_append_right _ member)) behind
  · apply Eq.symm
    exact eq_of_tails_eq tails (fun t member => ahead t (List.mem_append_right _ member)) behind'

theorem largest?_eq_none_iff : largest? shapes = none ↔ shapes = [] := by
  cases shapes <;> simp [largest?]

theorem lastLargest_of_largest? (found : largest? shapes = some r) : LastLargest shapes r := by
  cases shapes with
  | nil => cases found
  | cons s rest =>
    obtain rfl := Option.some.inj found
    have single : LastLargest [s] s := ⟨[], [], rfl, List.forall_mem_nil _, List.forall_mem_nil _⟩
    exact single.foldl rest

theorem largest?_eq_some_iff : largest? shapes = some r ↔ LastLargest shapes r := by
  refine ⟨lastLargest_of_largest?, fun last => ?_⟩
  cases found : largest? shapes with
  | none => exact absurd last.mem (by simp [largest?_eq_none_iff.mp found])
  | some s => rw [(lastLargest_of_largest? found).unique last]

end Largest

end Rect

namespace PathNode

open Rect

/-- What the boxes of a terminal are. A bounding box has the least low and the greatest high
coordinates, so neither order nor repetition changes it, and that of a concatenation is the merge of
the two; of normalised rectangles it is normalised, covers each of them, and is covered by whatever
else does. A terminal has both boxes or neither. The largest box is the last of the shapes with the
largest area, which is exact where width and height fit in 64 bits, and it lies within the bounding
box if the shapes are normalised. -/
theorem boxes_of_shapes (rects : List Rect) (n : PathNode) (db : DesignDatabase) :
    let shapes := db.pinShapes n.terminal
    (bounding? rects = none ↔ rects = []) ∧
      ((bounding? rects).map Rect.xLo = (rects.map Rect.xLo).min? ∧
        (bounding? rects).map Rect.yLo = (rects.map Rect.yLo).min? ∧
        (bounding? rects).map Rect.xHi = (rects.map Rect.xHi).max? ∧
        (bounding? rects).map Rect.yHi = (rects.map Rect.yHi).max?) ∧
      (∀ others, (∀ r, r ∈ others ↔ r ∈ rects) → bounding? others = bounding? rects) ∧
      (∀ others, bounding? (rects ++ others) =
        (bounding? rects).merge Rect.merge (bounding? others)) ∧
      (∀ r : Rect, r.Normalised ↔ ∃ x₀ y₀ x₁ y₁, r = ofCorners x₀ y₀ x₁ y₁) ∧
      ((∀ r ∈ rects, r.Normalised) → ∀ b, bounding? rects = some b →
        b.Normalised ∧ (∀ r ∈ rects, b.Covers r) ∧
          ∀ t : Rect, (∀ r ∈ rects, t.Covers r) → t.Covers b) ∧
      n.boundingBox? db = bounding? shapes ∧
      (n.boundingBox? db = none ↔ n.largestBox? db = none) ∧
      (∀ r, n.largestBox? db = some r ↔ LastLargest shapes r) ∧
      (∀ r : Rect, IsInt64 (r.xHi - r.xLo) → IsInt64 (r.yHi - r.yLo) →
        r.area = (r.xHi - r.xLo) * (r.yHi - r.yLo) ∧
          IsInt128 ((r.xHi - r.xLo) * (r.yHi - r.yLo))) ∧
      ((∀ s ∈ shapes, s.Normalised) → ∀ b r, n.boundingBox? db = some b →
        n.largestBox? db = some r → b.Covers r) := by
  intro shapes
  refine ⟨bounding?_eq_none_iff, ⟨?_, ?_, ?_, ?_⟩, fun _ => bounding?_congr,
    bounding?_append rects, fun _ => normalised_iff, ?_, rfl,
    bounding?_eq_none_iff.trans largest?_eq_none_iff.symm, fun _ => largest?_eq_some_iff, ?_, ?_⟩
  · exact map_bounding?_min (fun _ _ => rfl) rects
  · exact map_bounding?_min (fun _ _ => rfl) rects
  · exact map_bounding?_max (fun _ _ => rfl) rects
  · exact map_bounding?_max (fun _ _ => rfl) rects
  · intro normalised b found
    exact ⟨normalised_bounding? normalised found, bounding?_covers normalised found,
      fun t => (covers_bounding?_iff normalised found).mpr⟩
  · intro r width height
    exact ⟨area_of_isInt64 width height, isInt128_mul width height⟩
  · intro normalised b r found largest
    exact bounding?_covers normalised found r (lastLargest_of_largest? largest).mem

/-- A pin of the block with three shapes, of which the first two have the same area. -/
def pad : Design :=
  [⟨0, 0, 4, 2⟩, ⟨10, 1, 12, 5⟩, ⟨3, 6, 4, 9⟩].foldl (Design.addShape · ⟨0⟩)
    (Design.empty.addBlockPin "pad" .input).2

/-- The second shape is the largest box, as it comes after the first. -/
theorem boxes_of_shapes_pad :
    let n := placeholder (.ofBlock ⟨0⟩) ⟨0⟩ {}
    let shapes := pad.database.pinShapes n.terminal
    (∀ s ∈ shapes, s.Normalised) ∧ n.boundingBox? pad.database = some ⟨0, 0, 12, 9⟩ ∧
      n.largestBox? pad.database = some ⟨10, 1, 12, 5⟩ ∧
      LastLargest shapes ⟨10, 1, 12, 5⟩ ∧ Covers ⟨0, 0, 12, 9⟩ ⟨10, 1, 12, 5⟩ ∧
      bounding? (shapes.reverse ++ shapes) = bounding? shapes ∧
      area ⟨10, 1, 12, 5⟩ = 8 ∧
      ∀ t : Rect, (∀ s ∈ shapes, t.Covers s) → t.Covers ⟨0, 0, 12, 9⟩ := by
  intro n shapes
  have normalised : ∀ s ∈ shapes, s.Normalised := by decide +kernel
  have bounding : n.boundingBox? pad.database = some ⟨0, 0, 12, 9⟩ := by decide +kernel
  have largest : n.largestBox? pad.database = some ⟨10, 1, 12, 5⟩ := by decide +kernel
  obtain ⟨_, _, unordered, _, _, least, _, _, last, exact, within⟩ :=
    boxes_of_shapes shapes n pad.database
  exact ⟨normalised, bounding, largest, (last _).mp largest, within normalised _ _ bounding largest,
    unordered _ (by simp), (exact ⟨10, 1, 12, 5⟩ ⟨by decide, by decide⟩ ⟨by decide, by decide⟩).1,
    (least normalised _ bounding).2.2⟩

end PathNode

end TimingExplorer
