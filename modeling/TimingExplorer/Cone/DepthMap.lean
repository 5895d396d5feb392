import TimingExplorer.Id

/-!
Pins sorted into sets by their depth. A depth that no pin has is not stored.
-/

namespace TimingExplorer

/-- The pins of a cone by their depth from its seed. -/
abbrev DepthMap := Std.TreeMap Int PinSet

namespace DepthMap

/-- Adds a pin at a depth. -/
def add (m : DepthMap) (depth : Int) (pin : PinId) : DepthMap :=
  m.insert depth ((m.getD depth ∅).insert pin)

/-- Sorts pins by their depths. -/
def ofDepths (depths : List (PinId × Int)) : DepthMap :=
  depths.foldl (fun m (pin, depth) => m.add depth pin) ∅

/-- All entries, least depth first, and the pins of a depth in order. -/
def entries (m : DepthMap) : List (Int × PinId) :=
  m.toList.flatMap fun (depth, pins) => pins.toList.map fun pin => (depth, pin)

end DepthMap

end TimingExplorer
