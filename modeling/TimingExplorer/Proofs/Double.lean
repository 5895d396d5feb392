import Mathlib.Order.Monotone.Basic
import Mathlib.Tactic.Ring
import Mathlib.Tactic.Linarith
import TimingExplorer.Double

/-!
The values of doubles. Every finite double is a whole multiple of the least positive one, 2^-1074,
so values, and their distances from a fraction, are compared as integers. The total order agrees
with the values, and where it places the patterns that are no numbers depends on their sign.
-/

namespace TimingExplorer.Double

variable {x y : Double}

/-! ## The total order -/

/-- One double is below another in the total order of IEEE 754: patterns with a sign come first and
run downwards, those without one run upwards. -/
def TotalLess (x y : Double) : Prop :=
  let signed (z : Double) : Prop := 0x8000000000000000 ≤ z.bits
  signed x ∧ ¬ signed y ∨ signed x ∧ signed y ∧ y.bits < x.bits ∨
    ¬ signed x ∧ ¬ signed y ∧ x.bits < y.bits

theorem totalLess_iff : TotalLess x y ↔ x.rank < y.rank := by
  have hx := x.bits.toNat_lt
  have hy := y.bits.toNat_lt
  simp only [TotalLess, rank, isNegative, magnitude, decide_eq_true_eq, UInt64.le_iff_toNat_le,
    UInt64.lt_iff_toNat_lt, UInt64.reduceToNat]
  split <;> split <;> omega

theorem rank_infinity : infinity.rank = infiniteMagnitude := by decide

theorem rank_neg_infinity : (-infinity).rank = -1 - (infiniteMagnitude : Int) := by decide

theorem isInfinite_iff : x.isInfinite = true ↔ x = infinity ∨ x = -infinity := by
  constructor
  · intro infinite
    simp only [isInfinite, beq_iff_eq] at infinite
    cases sign : x.isNegative with
    | false =>
      refine .inl (eq_of_rank_eq ?_)
      rw [rank_infinity, rank, sign, if_neg Bool.false_ne_true, infinite]
    | true =>
      refine .inr (eq_of_rank_eq ?_)
      rw [rank_neg_infinity, rank, sign, if_pos rfl, infinite]
  · rintro (rfl | rfl) <;> decide

@[simp] theorem isInfinite_infinity : isInfinite infinity = true := isInfinite_iff.mpr (.inl rfl)

theorem not_isInfinite (finite : x.isFinite = true) : x.isInfinite = false := by
  simp only [isFinite, decide_eq_true_eq] at finite
  simp only [isInfinite, beq_eq_false_iff_ne]
  omega

theorem rank_lt_infinity (finite : x.isFinite = true) : x.rank < infinity.rank := by
  simp only [isFinite, decide_eq_true_eq] at finite
  rw [rank_infinity, rank]
  split <;> omega

/-- Behind infinity there are only NaNs, those without a sign. -/
theorem infinity_totalLess_iff :
    TotalLess infinity x ↔ x.isNaN = true ∧ x.isNegative = false := by
  rw [totalLess_iff, rank_infinity, rank]
  simp only [isNaN, decide_eq_true_eq]
  cases x.isNegative with
  | false => simp
  | true => simp; omega

/-- Before negative infinity there are only NaNs, those with a sign. -/
theorem totalLess_neg_infinity_iff :
    TotalLess x (-infinity) ↔ x.isNaN = true ∧ x.isNegative = true := by
  rw [totalLess_iff, rank_neg_infinity, rank]
  simp only [isNaN, decide_eq_true_eq]
  cases x.isNegative with
  | false => simp; omega
  | true => simp

/-! ## Values -/

/-- The value of a pattern without sign, in units of 2^-1074. The first two binades have the same
spacing; infinity stands where the next number would. -/
def unitsOf (pattern : Nat) : Nat :=
  if pattern / binade = 0 then pattern % binade
  else (binade + pattern % binade) * 2 ^ (pattern / binade - 1)

def units (x : Double) : Int :=
  if x.isNegative then -(unitsOf x.magnitude : Int) else unitsOf x.magnitude

theorem units_of_unsigned (unsigned : x.isNegative = false) : x.units = unitsOf x.magnitude := by
  rw [units, unsigned, if_neg Bool.false_ne_true]

theorem unitsOf_place {exponent fraction : Nat} (within : fraction < binade) :
    unitsOf (exponent * binade + fraction) =
      if exponent = 0 then fraction else (binade + fraction) * 2 ^ (exponent - 1) := by
  have whole : (exponent * binade + fraction) / binade = exponent := by
    unfold binade at *; omega
  have rest : (exponent * binade + fraction) % binade = fraction := by
    unfold binade at *; omega
  rw [unitsOf, whole, rest]

theorem unitsOf_lt_succ (pattern : Nat) : unitsOf pattern < unitsOf (pattern + 1) := by
  obtain ⟨exponent, fraction, within, rfl⟩ :
      ∃ exponent fraction, fraction < binade ∧ pattern = exponent * binade + fraction :=
    ⟨pattern / binade, pattern % binade, Nat.mod_lt _ (by decide), (Nat.div_add_mod' ..).symm⟩
  rw [unitsOf_place within]
  rcases Nat.lt_or_ge (fraction + 1) binade with inside | edge
  · rw [Nat.add_assoc, unitsOf_place inside]
    split
    · omega
    · exact Nat.mul_lt_mul_of_pos_right (by omega) (Nat.two_pow_pos _)
  · have next : exponent * binade + fraction + 1 = (exponent + 1) * binade + 0 := by
      rw [Nat.add_mul]; omega
    rw [next, unitsOf_place (by decide), if_neg (Nat.succ_ne_zero _), Nat.add_sub_cancel]
    cases exponent with
    | zero => simpa using within
    | succ exponent =>
      have twice : 2 * binade * 2 ^ exponent = (binade + 0) * 2 ^ (exponent + 1) := by ring
      rw [if_neg (Nat.succ_ne_zero _), Nat.add_sub_cancel, ← twice]
      exact Nat.mul_lt_mul_of_pos_right (by omega) (Nat.two_pow_pos _)

theorem unitsOf_lt_iff {p q : Nat} : unitsOf p < unitsOf q ↔ p < q :=
  (strictMono_nat_of_lt_succ unitsOf_lt_succ).lt_iff_lt

theorem unitsOf_le_iff {p q : Nat} : unitsOf p ≤ unitsOf q ↔ p ≤ q :=
  (strictMono_nat_of_lt_succ unitsOf_lt_succ).le_iff_le

/-- Numbers are ordered by their values, and negative zero is before zero. -/
theorem totalLess_iff_units : TotalLess x y ↔ x.units < y.units ∨
    x.units = y.units ∧ x.isNegative = true ∧ y.isNegative = false := by
  have forward := @unitsOf_lt_iff x.magnitude y.magnitude
  have backward := @unitsOf_lt_iff y.magnitude x.magnitude
  rw [totalLess_iff, rank, rank, units, units]
  cases x.isNegative <;> cases y.isNegative <;>
    simp only [Bool.false_eq_true, if_false, if_true, reduceCtorEq, and_false, and_true,
      or_false] <;> omega

/-! ## Rounding -/

/-- How far a double is from `numerator / scale`, in units and times the scale. -/
def distance (numerator : Int) (scale : Nat) (x : Double) : Nat :=
  (x.units * scale - numerator).natAbs

/-- A fraction of so many units rounds to this double: none is nearer, and of two that are equally
near it is the one with the even pattern. Beyond the numbers infinity counts as the next one. -/
structure Rounds (numerator : Int) (scale : Nat) (x : Double) : Prop where
  number : x.isNaN = false
  nearest (y : Double) : y.isNaN = false → x.distance numerator scale ≤ y.distance numerator scale
  even (y : Double) : y.isNaN = false → y.distance numerator scale = x.distance numerator scale →
    y.units = x.units ∨ x.magnitude % 2 = 0

/-- How many units make one. -/
def oneUnits : Nat := 2 ^ 1074

/-- A decimal number rounds to this double. -/
def RoundsDecimal (mantissa exponent : Int) (x : Double) : Prop :=
  Rounds (mantissa * (oneUnits * 10 ^ exponent.toNat : Nat)) (10 ^ (-exponent).toNat) x

/-- The fraction lies between the middles of the gaps below and above a positive double, and on one
of them only if the pattern is even. -/
structure Between (numerator : Int) (scale : Nat) (x : Double) : Prop where
  number : x.isNaN = false
  unsigned : x.isNegative = false
  positive : 0 < x.magnitude
  scaled : 0 < scale
  low : ((unitsOf (x.magnitude - 1) + unitsOf x.magnitude) * scale + x.magnitude % 2 : Nat) ≤
    2 * numerator
  high : 2 * numerator + (x.magnitude % 2 : Nat) ≤
    ((unitsOf x.magnitude + unitsOf (x.magnitude + 1)) * scale : Nat)

instance (numerator : Int) (scale : Nat) (x : Double) : Decidable (Between numerator scale x) :=
  decidable_of_iff (x.isNaN = false ∧ x.isNegative = false ∧ 0 < x.magnitude ∧ 0 < scale ∧
      ((unitsOf (x.magnitude - 1) + unitsOf x.magnitude) * scale + x.magnitude % 2 : Nat) ≤
        2 * numerator ∧
      2 * numerator + (x.magnitude % 2 : Nat) ≤
        ((unitsOf x.magnitude + unitsOf (x.magnitude + 1)) * scale : Nat))
    ⟨fun ⟨number, unsigned, positive, scaled, low, high⟩ =>
      ⟨number, unsigned, positive, scaled, low, high⟩,
    fun ⟨number, unsigned, positive, scaled, low, high⟩ =>
      ⟨number, unsigned, positive, scaled, low, high⟩⟩

/-- Every other double is at or beyond one of the two neighbours. -/
theorem units_beyond (unsigned : x.isNegative = false) (y : Double) :
    y.units ≤ unitsOf (x.magnitude - 1) ∨ y.units = x.units ∨
      (unitsOf (x.magnitude + 1) : Int) ≤ y.units := by
  rw [units_of_unsigned unsigned, units]
  cases y.isNegative with
  | true => exact .inl (by simp only [if_true]; omega)
  | false =>
    simp only [Bool.false_eq_true, if_false, Int.ofNat_le, Int.ofNat_inj, unitsOf_le_iff]
    rcases Nat.lt_trichotomy y.magnitude x.magnitude with less | same | more
    · exact .inl (by omega)
    · exact .inr (.inl (congrArg unitsOf same))
    · exact .inr (.inr more)

theorem Between.rounds {numerator : Int} {scale : Nat} (between : Between numerator scale x) :
    Rounds numerator scale x := by
  obtain ⟨number, unsigned, positive, scaled, low, high⟩ := between
  have below : unitsOf (x.magnitude - 1) * scale < unitsOf x.magnitude * scale :=
    Nat.mul_lt_mul_of_pos_right (unitsOf_lt_iff.mpr (by omega)) scaled
  have above : unitsOf x.magnitude * scale < unitsOf (x.magnitude + 1) * scale :=
    Nat.mul_lt_mul_of_pos_right (unitsOf_lt_iff.mpr (by omega)) scaled
  rw [Nat.add_mul] at low high
  have beyond (y : Double) : y.units * scale ≤ (unitsOf (x.magnitude - 1) * scale : Nat) ∨
      y.units = x.units ∨ ((unitsOf (x.magnitude + 1) * scale : Nat) : Int) ≤ y.units * scale := by
    push_cast
    rcases units_beyond unsigned y with lower | same | higher
    · exact .inl (Int.mul_le_mul_of_nonneg_right lower (Int.natCast_nonneg _))
    · exact .inr (.inl same)
    · exact .inr (.inr (Int.mul_le_mul_of_nonneg_right higher (Int.natCast_nonneg _)))
  have place : x.units * scale = (unitsOf x.magnitude * scale : Nat) := by
    rw [units_of_unsigned unsigned, Int.natCast_mul]
  refine ⟨number, fun y _ => ?_, fun y _ near => ?_⟩
  · unfold distance
    rcases beyond y with lower | same | higher
    · omega
    · rw [same]
    · omega
  · unfold distance at near
    rcases beyond y with lower | same | higher
    · exact .inr (by omega)
    · exact .inl same
    · exact .inr (by omega)

/-! ## Whole numbers -/

theorem dropPlaces_eq (n places : Nat) : dropPlaces n places =
    if 2 ^ places < 2 * (n % 2 ^ places) ∨ 2 ^ places = 2 * (n % 2 ^ places) ∧
      n / 2 ^ places % 2 = 1 then n / 2 ^ places + 1 else n / 2 ^ places := by
  have rest : n - n / 2 ^ places * 2 ^ places = n % 2 ^ places := by
    have whole := Nat.div_add_mod' n (2 ^ places)
    omega
  simp only [dropPlaces, Nat.shiftRight_eq_div_pow, Nat.shiftLeft_eq, Nat.one_mul, rest]

/-- What is left, in the dropped unit, is no further than half of it away, and only half of it if it
is even. -/
theorem dropPlaces_near (n places : Nat) :
    2 * (dropPlaces n places * 2 ^ places) + dropPlaces n places % 2 ≤ 2 * n + 2 ^ places ∧
      2 * n + dropPlaces n places % 2 ≤ 2 * (dropPlaces n places * 2 ^ places) + 2 ^ places := by
  have whole := Nat.div_add_mod' n (2 ^ places)
  have small := Nat.mod_lt n (Nat.two_pow_pos places)
  rw [dropPlaces_eq]
  split
  · rw [Nat.add_mul, Nat.one_mul]
    omega
  · omega

theorem unitsOf_leading {exponent leading : Nat} (low : binade ≤ leading)
    (high : leading ≤ 2 * binade) :
    unitsOf (exponent * binade + leading) = leading * 2 ^ exponent := by
  rcases Nat.lt_or_eq_of_le high with inside | rfl
  · have place : exponent * binade + leading = (exponent + 1) * binade + (leading - binade) := by
      rw [Nat.add_mul]; omega
    rw [place, unitsOf_place (by omega), if_neg (Nat.succ_ne_zero _), Nat.add_sub_cancel,
      Nat.add_sub_cancel' low]
  · have place : exponent * binade + 2 * binade = (exponent + 2) * binade + 0 := by ring
    rw [place, unitsOf_place (by decide), if_neg (Nat.succ_ne_zero _)]
    exact (by ring : (binade + 0) * 2 ^ (exponent + 1) = 2 * binade * 2 ^ exponent)

theorem leading_bounds {n places : Nat} (low : binade * 2 ^ places ≤ n)
    (high : n < 2 * binade * 2 ^ places) :
    binade ≤ dropPlaces n places ∧ dropPlaces n places ≤ 2 * binade := by
  have least : binade ≤ n / 2 ^ places := (Nat.le_div_iff_mul_le (Nat.two_pow_pos _)).mpr low
  have most : n / 2 ^ places < 2 * binade := (Nat.div_lt_iff_lt_mul (Nat.two_pow_pos _)).mpr high
  rw [dropPlaces_eq]
  split <;> omega

/-- The patterns beside one that such leading bits give. -/
theorem units_beside {exponent leading : Nat} (low : binade ≤ leading)
    (high : leading ≤ 2 * binade) :
    (unitsOf (exponent * binade + leading - 1) + 2 ^ exponent ≤ leading * 2 ^ exponent ∨
        leading = binade) ∧
      leading * 2 ^ exponent + 2 ^ exponent ≤ unitsOf (exponent * binade + leading + 1) := by
  constructor
  · rcases Nat.lt_or_eq_of_le low with inside | rfl
    · rw [Nat.add_sub_assoc (by omega), unitsOf_leading (by omega) (by omega), Nat.sub_mul]
      have least := Nat.le_mul_of_pos_left (2 ^ exponent) (by omega : 0 < leading)
      omega
    · exact .inr rfl
  · rcases Nat.lt_or_eq_of_le high with inside | rfl
    · rw [Nat.add_assoc, unitsOf_leading (by omega) inside, Nat.succ_mul]
    · have place : exponent * binade + 2 * binade + 1 = (exponent + 1) * binade + (binade + 1) := by
        ring
      rw [place, unitsOf_leading (by omega) (by decide), Nat.pow_succ]
      linarith [Nat.two_pow_pos exponent]

/-- Rounding to 53 leading bits: the number lies between the middles of the gaps around the pattern
that they give. -/
theorem between_leading {n places exponent rest : Nat} (number : x.isNaN = false)
    (unsigned : x.isNegative = false) (low : binade * 2 ^ places ≤ n)
    (high : n < 2 * binade * 2 ^ places) (place : exponent = places + rest)
    (pattern : x.magnitude = exponent * binade + dropPlaces n places) :
    Between (n * 2 ^ rest : Nat) 1 x := by
  obtain ⟨least, most⟩ := leading_bounds low high
  obtain ⟨down, up⟩ := dropPlaces_near n places
  obtain ⟨below, above⟩ := @units_beside exponent _ least most
  have own := @unitsOf_leading exponent _ least most
  have even : x.magnitude % 2 = dropPlaces n places % 2 := by
    rw [pattern]; unfold binade; omega
  have odd := Nat.le_mul_of_pos_right (dropPlaces n places % 2) (Nat.two_pow_pos rest)
  have unit : 2 ^ exponent = 2 ^ places * 2 ^ rest := by rw [place, Nat.pow_add]
  have low' := Nat.mul_le_mul_right (2 ^ rest) low
  have down' := Nat.mul_le_mul_right (2 ^ rest) down
  have up' := Nat.mul_le_mul_right (2 ^ rest) up
  simp only [Nat.add_mul, Nat.mul_assoc, ← unit] at low' down' up'
  have less := unitsOf_lt_succ (x.magnitude - 1)
  have positive : 0 < x.magnitude := by unfold binade at *; omega
  rw [Nat.sub_add_cancel positive] at less
  rw [← pattern] at below above own
  refine ⟨number, unsigned, positive, Nat.one_pos, ?_, ?_⟩
  · rw [even, own]
    rcases below with inside | edge
    · omega
    · rw [edge] at own ⊢
      omega
  · rw [even, own]
    omega

theorem rounds_zero (scale : Nat) : Rounds 0 scale 0 := by
  have own : (0 : Double).units = 0 := by decide
  refine ⟨by decide, fun y _ => ?_, fun _ _ _ => .inr (by decide)⟩
  simp [distance, own]

theorem roundsDecimal_zero (exponent : Int) : RoundsDecimal 0 exponent 0 := by
  rw [RoundsDecimal, Int.zero_mul]
  exact rounds_zero _

/-- What is at least as large as the number that infinity stands for rounds to infinity. -/
theorem rounds_infinity {numerator : Int} {scale : Nat}
    (large : (unitsOf infiniteMagnitude * scale : Nat) ≤ numerator) :
    Rounds numerator scale infinity := by
  have own : infinity.units * scale = (unitsOf infiniteMagnitude * scale : Nat) := by
    push_cast; rfl
  refine ⟨by decide, fun y number => ?_, fun y number near => .inr (by decide)⟩
  have below : y.units ≤ unitsOf infiniteMagnitude := by
    have within : unitsOf y.magnitude ≤ unitsOf infiniteMagnitude := by
      rw [unitsOf_le_iff]
      simpa [isNaN] using number
    unfold units
    split <;> omega
  have scaled := Int.mul_le_mul_of_nonneg_right below (Int.natCast_nonneg scale)
  unfold distance
  push_cast at own large
  omega

theorem magnitude_ofNat {pattern : Nat} (within : pattern ≤ infiniteMagnitude) :
    (⟨.ofNat pattern⟩ : Double).magnitude = pattern ∧
      (⟨.ofNat pattern⟩ : Double).isNegative = false := by
  have small : pattern % 0x10000000000000000 = pattern := by
    unfold infiniteMagnitude at within
    omega
  unfold magnitude isNegative infiniteMagnitude at *
  simp only [UInt64.toNat_ofNat', Nat.reducePow, small, decide_eq_false_iff_not]
  omega

/-- The leading bits of a number, brought to 53, and what it is in units. -/
theorem place_bounds {n : Nat} (positive : 0 < n) :
    binade * 2 ^ (n.log2 - 52) ≤ n * 2 ^ (52 - n.log2) ∧
      n * 2 ^ (52 - n.log2) < 2 * binade * 2 ^ (n.log2 - 52) ∧
      n * oneUnits = n * 2 ^ (52 - n.log2) * 2 ^ (1022 + n.log2 - (n.log2 - 52)) := by
  have front : binade * 2 ^ (n.log2 - 52) = 2 ^ n.log2 * 2 ^ (52 - n.log2) := by
    rw [show binade = 2 ^ 52 by decide, ← Nat.pow_add, ← Nat.pow_add]
    congr 1
    omega
  refine ⟨front ▸ Nat.mul_le_mul_right _ (Nat.log2_self_le (by omega)), ?_, ?_⟩
  · rw [Nat.mul_assoc, front, ← Nat.mul_assoc, ← Nat.pow_succ']
    exact Nat.mul_lt_mul_of_pos_right Nat.lt_log2_self (Nat.two_pow_pos _)
  · rw [Nat.mul_assoc, ← Nat.pow_add, oneUnits]
    congr 2
    omega

/-- A whole number is rounded to the nearest double. -/
theorem rounds_ofNat (n : Nat) : Rounds (n * oneUnits : Nat) 1 (ofNat n) := by
  rcases Nat.eq_zero_or_pos n with rfl | positive
  · rw [Nat.zero_mul]
    exact rounds_zero 1
  obtain ⟨low, high, units⟩ := place_bounds positive
  have rounded : ofNat n = ⟨.ofNat (min ((1022 + n.log2) * binade +
      dropPlaces (n * 2 ^ (52 - n.log2)) (n.log2 - 52)) infiniteMagnitude)⟩ := by
    rw [ofNat, if_neg (by omega), ← Nat.shiftLeft_eq]
  rw [rounded]
  rcases Nat.lt_or_ge infiniteMagnitude ((1022 + n.log2) * binade +
      dropPlaces (n * 2 ^ (52 - n.log2)) (n.log2 - 52)) with large | fits
  · have most := (leading_bounds low high).2
    have beyond : 1024 ≤ n.log2 := by
      unfold infiniteMagnitude binade at *; omega
    have value : unitsOf infiniteMagnitude = 2 ^ 1024 * oneUnits := by decide +kernel
    have reach (place : Nat) (le : place ≤ n.log2) : 2 ^ place ≤ n :=
      (Nat.le_log2 (by omega)).mp le
    rw [Nat.min_eq_right (Nat.le_of_lt large)]
    refine rounds_infinity (Int.ofNat_le.mpr ?_)
    rw [Nat.mul_one, value]
    exact Nat.mul_le_mul_right oneUnits (reach 1024 beyond)
  · obtain ⟨pattern, unsigned⟩ := magnitude_ofNat fits
    rw [Nat.min_eq_left fits, units]
    refine (between_leading ?_ unsigned low high (by omega) pattern).rounds
    rw [isNaN, pattern]
    simpa using fits

theorem sign_neg (x : Double) :
    (-x).magnitude = x.magnitude ∧ (-x).isNegative = !x.isNegative := by
  have flipped : (-x).bits.toNat = (x.bits.toNat + 0x8000000000000000) % 0x10000000000000000 :=
    UInt64.toNat_add ..
  have within := x.bits.toNat_lt
  unfold magnitude isNegative
  rw [flipped, ← decide_not, decide_eq_decide]
  omega

@[simp] theorem units_neg (x : Double) : (-x).units = -x.units := by
  obtain ⟨same, flipped⟩ := sign_neg x
  rw [units, units, same, flipped]
  cases x.isNegative <;> simp

theorem isNaN_neg (x : Double) : (-x).isNaN = x.isNaN := by rw [isNaN, isNaN, (sign_neg x).1]

theorem Rounds.neg {numerator : Int} {scale : Nat} (rounds : Rounds numerator scale x) :
    Rounds (-numerator) scale (-x) := by
  have mirrored (y : Double) : y.distance (-numerator) scale = (-y).distance numerator scale := by
    rw [distance, distance, units_neg, Int.neg_mul]
    omega
  have back (y : Double) : (- -y).distance numerator scale = y.distance numerator scale := by
    rw [distance, distance, units_neg, units_neg, Int.neg_neg]
  have number (y : Double) (given : y.isNaN = false) : (-y).isNaN = false := by rwa [isNaN_neg]
  refine ⟨number x rounds.number, fun y given => ?_, fun y given near => ?_⟩
  · rw [mirrored, mirrored, back]
    exact rounds.nearest (-y) (number y given)
  · rw [mirrored, mirrored, back] at near
    rw [(sign_neg x).1, units_neg, ← Int.neg_inj, Int.neg_neg, ← units_neg]
    exact rounds.even (-y) (number y given) near

/-- A whole number of either sign is rounded to the nearest double. -/
theorem rounds_ofInt (n : Int) : Rounds (n * oneUnits) 1 (ofInt n) := by
  unfold ofInt
  rcases Int.lt_or_le n 0 with below | above
  · have value : n * oneUnits = -(n.natAbs * oneUnits : Nat) := by
      rw [Int.natCast_mul, Int.ofNat_natAbs_of_nonpos (Int.le_of_lt below), Int.neg_mul,
        Int.neg_neg]
    rw [if_pos below, value]
    exact (rounds_ofNat _).neg
  · have value : n * oneUnits = (n.natAbs * oneUnits : Nat) := by
      rw [Int.natCast_mul, Int.natAbs_of_nonneg above]
    rw [if_neg (Int.not_lt.mpr above), value]
    exact rounds_ofNat _

end TimingExplorer.Double
