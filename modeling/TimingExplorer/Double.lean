/-!
Double-precision numbers by their bit patterns. `Float` has a single NaN; here every NaN keeps its
sign and its payload, and with them its place in the total order of all patterns: negative patterns
come first and run downwards, so NaNs with a sign stand before negative infinity, -0.0 before 0.0,
and the other NaNs after infinity. Arithmetic is that of `Float`.
-/

namespace TimingExplorer

structure Double where
  bits : UInt64
  deriving DecidableEq, Repr

namespace Double

def ofFloat (x : Float) : Double := ⟨x.toBits⟩

def toFloat (x : Double) : Float := .ofBits x.bits

/-- The pattern of infinity; larger ones without a sign bit are NaN. -/
def infiniteMagnitude : Nat := 0x7ff0000000000000

/-- The patterns that share an exponent. -/
def binade : Nat := 0x10000000000000

/-- Drops binary places. A half goes to the even neighbour. -/
def dropPlaces (n places : Nat) : Nat :=
  let kept := n >>> places
  let rest := n - kept <<< places
  if 1 <<< places < 2 * rest ∨ 1 <<< places = 2 * rest ∧ kept % 2 = 1 then kept + 1 else kept

/-- The double nearest to a whole number: its leading 53 bits beside the place of the first of them.
Where rounding makes them a power of two the exponent grows by itself. -/
def ofNat (n : Nat) : Double :=
  if n = 0 then ⟨0⟩
  else
    let place := n.log2
    let leading := dropPlaces (n <<< (52 - place)) (place - 52)
    ⟨.ofNat (min ((1022 + place) * binade + leading) infiniteMagnitude)⟩

/-- The double nearest to a decimal number. -/
def ofScientific (mantissa : Nat) (negative : Bool) (exponent : Nat) : Double :=
  ofFloat (.ofScientific mantissa negative exponent)

instance (n : Nat) : OfNat Double n := ⟨ofNat n⟩

instance : OfScientific Double := ⟨ofScientific⟩

instance : Add Double := ⟨fun x y => ofFloat (x.toFloat + y.toFloat)⟩

instance : Sub Double := ⟨fun x y => ofFloat (x.toFloat - y.toFloat)⟩

instance : Mul Double := ⟨fun x y => ofFloat (x.toFloat * y.toFloat)⟩

instance : Div Double := ⟨fun x y => ofFloat (x.toFloat / y.toFloat)⟩

/-- Only the sign bit changes, also of a NaN. -/
instance : Neg Double := ⟨fun x => ⟨x.bits + 0x8000000000000000⟩⟩

def ofInt (n : Int) : Double := if n < 0 then -ofNat n.natAbs else ofNat n.natAbs

/-- The pattern without its sign bit. -/
def magnitude (x : Double) : Nat := x.bits.toNat % 0x8000000000000000

def infinity : Double := ⟨0x7ff0000000000000⟩

/-- The NaN without a sign that arithmetic gives. -/
def nan : Double := ⟨0x7ff8000000000000⟩

def isInfinite (x : Double) : Bool := x.magnitude == infiniteMagnitude

def isNaN (x : Double) : Bool := infiniteMagnitude < x.magnitude

def isFinite (x : Double) : Bool := x.magnitude < infiniteMagnitude

def isZero (x : Double) : Bool := x.magnitude == 0

def isNegative (x : Double) : Bool := 0x8000000000000000 ≤ x.bits.toNat

/-- Places every pattern on one line: negative patterns run downwards from -1. -/
def rank (x : Double) : Int :=
  if x.isNegative then -1 - (x.magnitude : Int) else x.magnitude

def le (x y : Double) : Bool := x.rank ≤ y.rank

theorem le_total (x y : Double) : (x.le y || y.le x) = true := by
  simp only [le, Bool.or_eq_true, decide_eq_true_eq]
  exact Int.le_total _ _

theorem le_trans (x y z : Double) (hxy : x.le y = true) (hyz : y.le z = true) :
    x.le z = true := by
  simp only [le, decide_eq_true_eq] at *
  exact Int.le_trans hxy hyz

/-- Only equal patterns share a place on the line. -/
theorem eq_of_rank_eq {x y : Double} (h : x.rank = y.rank) : x = y := by
  have hx := x.bits.toNat_lt
  have hy := y.bits.toNat_lt
  suffices x.bits = y.bits by cases x; cases y; exact congrArg _ this
  apply UInt64.toNat_inj.mp
  simp only [rank, isNegative, magnitude, decide_eq_true_eq] at h
  split at h <;> split at h <;> omega

end Double

end TimingExplorer
