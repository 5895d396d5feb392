/-!
Axis-aligned rectangles in layout units. A rectangle is normalised when its low corner does not lie
above its high corner; a rectangle read from a file need not be.
-/

namespace TimingExplorer

structure Rect where
  xLo : Int
  yLo : Int
  xHi : Int
  yHi : Int
  deriving DecidableEq, Repr

namespace Rect

/-- The normalised rectangle between two opposite corners. -/
def ofCorners (x₀ y₀ x₁ y₁ : Int) : Rect where
  xLo := min x₀ x₁
  yLo := min y₀ y₁
  xHi := max x₀ x₁
  yHi := max y₀ y₁

/-- How far `hi` lies above `lo`, in 64 bits: a difference beyond their range wraps around. -/
def span (lo hi : Int) : Int := (hi - lo).bmod 0x10000000000000000

def width (r : Rect) : Int := span r.xLo r.xHi

def height (r : Rect) : Int := span r.yLo r.yHi

/-- Width times height in 128 bits, signed: it is negative when just one of them is. -/
def area (r : Rect) : Int := (r.width * r.height).bmod 0x100000000000000000000000000000000

/-- Low corners go down and high corners go up as far as either rectangle does. -/
def merge (r s : Rect) : Rect where
  xLo := min r.xLo s.xLo
  yLo := min r.yLo s.yLo
  xHi := max r.xHi s.xHi
  yHi := max r.yHi s.yHi

theorem merge_self (r : Rect) : r.merge r = r := by
  simp [merge]

theorem merge_comm (r s : Rect) : r.merge s = s.merge r := by
  simp [merge, Int.min_comm, Int.max_comm]

theorem merge_assoc (r s t : Rect) : (r.merge s).merge t = r.merge (s.merge t) := by
  simp [merge, Int.min_assoc, Int.max_assoc]

instance : Std.IdempotentOp merge := ⟨merge_self⟩

instance : Std.Commutative merge := ⟨merge_comm⟩

instance : Std.Associative merge := ⟨merge_assoc⟩

/-- The merge of all rectangles, or none of none. -/
def bounding? : List Rect → Option Rect
  | [] => none
  | r :: rest => some (rest.foldl merge r)

/-- The one of two with the larger area, and the second if their areas are equal. -/
def larger (best s : Rect) : Rect := if best.area ≤ s.area then s else best

/-- The last of the rectangles whose area no other exceeds. -/
def largest? : List Rect → Option Rect
  | [] => none
  | r :: rest => some (rest.foldl larger r)

end Rect

end TimingExplorer
