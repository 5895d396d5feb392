import TimingExplorer.Id

/-!
What a timing value is relative to: a corner, and whether the best or the worst case is meant.
-/

namespace TimingExplorer

/-- Best case (hold checks) or worst case (setup checks). -/
inductive MinMax where
  | min
  | max
  deriving DecidableEq, Repr

namespace MinMax

instance : Inhabited MinMax := ⟨max⟩

def ofUseMax (useMax : Bool) : MinMax := if useMax then max else min

def isMax (m : MinMax) : Bool := m = max

end MinMax

structure AnalysisPoint where
  corner : CornerId
  minMax : MinMax
  deriving DecidableEq, Repr

end TimingExplorer
