import Mathlib.Data.List.Basic
import Mathlib.Data.List.TakeWhile
import TimingExplorer.Json.Token
import TimingExplorer.Json.Writer
import TimingExplorer.Proofs.Double

/-!
Numerals: which characters they are made of, that a whole number in decimal digits is read back, and
which double is read of a numeral beside the one that its value rounds to.
-/

namespace TimingExplorer.Json

open Document Text

open Token (isNumeralSign)

theorem isNumeralSign_of_isDigit {c : Char} (digit : c.isDigit = true) :
    isNumeralSign c = true := by
  simp [isNumeralSign, digit]

theorem hexDigit?_of_isDigit {c : Char} (digit : c.isDigit = true) :
    hexDigit? c = some (c.toNat - '0'.toNat) := by
  simp only [hexDigit?, digit, if_true]

namespace Numeral

/-- The value of a text that is one numeral. -/
def read? (cs : List Char) : Option Value := (ofChars? cs).map value

/-! Each part of a numeral takes signs from the front. -/

theorem someDigits?_takes {cs rest : List Char} {ds : List Nat}
    (found : someDigits? cs = some (ds, rest)) :
    ∃ front, cs = front ++ rest ∧ front ≠ [] ∧ ∀ c ∈ front, c.isDigit = true := by
  simp only [someDigits?, digits] at found
  split at found
  · cases found
  · next some' =>
    cases found
    refine ⟨cs.takeWhile Char.isDigit, List.takeWhile_append_dropWhile.symm, fun empty => ?_,
      fun c member => List.mem_takeWhile_imp member⟩
    rw [empty] at some'
    exact some' _ rfl

theorem fraction?_takes {cs rest : List Char} {fraction : Option (List Nat)}
    (found : fraction? cs = some (fraction, rest)) :
    ∃ front, cs = front ++ rest ∧ ∀ c ∈ front, isNumeralSign c = true := by
  unfold fraction? at found
  split at found
  · next cs =>
    obtain ⟨⟨ds, rest'⟩, taken, same⟩ := Option.map_eq_some_iff.mp found
    cases same
    obtain ⟨front, rfl, _, all⟩ := someDigits?_takes taken
    refine ⟨'.' :: front, rfl, fun c member => ?_⟩
    rcases List.mem_cons.mp member with rfl | member
    · rfl
    · exact isNumeralSign_of_isDigit (all c member)
  · cases found
    exact ⟨[], rfl, by simp⟩

theorem sign_takes (cs : List Char) :
    ∃ front, cs = front ++ (sign cs).2 ∧ ∀ c ∈ front, isNumeralSign c = true := by
  unfold sign
  split
  · exact ⟨['-'], rfl, by simp [isNumeralSign]⟩
  · exact ⟨['+'], rfl, by simp [isNumeralSign]⟩
  · exact ⟨[], rfl, by simp⟩

theorem exponent?_takes {cs rest : List Char} {exponent : Option (Bool × List Nat)}
    (found : exponent? cs = some (exponent, rest)) :
    ∃ front, cs = front ++ rest ∧ ∀ c ∈ front, isNumeralSign c = true := by
  unfold exponent? at found
  split at found
  · cases found
    exact ⟨[], rfl, by simp⟩
  · next c cs =>
    split at found
    · next letter =>
      obtain ⟨⟨ds, rest'⟩, taken, same⟩ := Option.map_eq_some_iff.mp found
      cases same
      obtain ⟨signs, split, allSigns⟩ := sign_takes cs
      obtain ⟨front, split', _, all⟩ := someDigits?_takes taken
      replace split' : (sign cs).2 = front ++ rest := split'
      refine ⟨c :: signs ++ front, ?_, fun d member => ?_⟩
      · rw [split, split', List.cons_append, List.cons_append, List.append_assoc]
      rcases List.mem_append.mp member with member | member
      · rcases List.mem_cons.mp member with rfl | member
        · rcases letter with rfl | rfl <;> rfl
        · exact allSigns d member
      · exact isNumeralSign_of_isDigit (all d member)
    · cases found
      exact ⟨[], rfl, by simp⟩

/-- The parts that a numeral consists of. -/
theorem parts_of_ofChars? {cs : List Char} {n : Numeral} (numeral : ofChars? cs = some n) :
    ∃ minus body afterWhole afterFraction, cs = minus ++ body ∧ (minus = [] ∨ minus = ['-']) ∧
      someDigits? body = some (n.whole, afterWhole) ∧
      fraction? afterWhole = some (n.fraction, afterFraction) ∧
      exponent? afterFraction = some (n.exponent, []) := by
  unfold ofChars? at numeral
  split at numeral
  next negative body signed =>
  obtain ⟨⟨whole, afterWhole⟩, whole?, numeral⟩ := Option.bind_eq_some_iff.mp numeral
  dsimp only at numeral
  split at numeral
  · cases numeral
  obtain ⟨⟨fraction, afterFraction⟩, fraction?, numeral⟩ := Option.bind_eq_some_iff.mp numeral
  obtain ⟨⟨exponent, last⟩, exponent?, numeral⟩ := Option.bind_eq_some_iff.mp numeral
  dsimp only at numeral
  split at numeral
  · next isEmpty =>
    cases numeral
    cases List.isEmpty_iff.mp isEmpty
    split at signed
    · cases signed
      exact ⟨['-'], _, afterWhole, afterFraction, rfl, .inr rfl, whole?, fraction?, exponent?⟩
    · cases signed
      exact ⟨[], _, afterWhole, afterFraction, rfl, .inl rfl, whole?, fraction?, exponent?⟩
  · cases numeral

/-- A numeral begins with a digit or a minus and holds nothing but signs of numerals. -/
theorem signs_of_ofChars? {cs : List Char} {n : Numeral} (numeral : ofChars? cs = some n) :
    (∃ c rest, cs = c :: rest ∧ (c.isDigit = true ∨ c = '-')) ∧
      ∀ c ∈ cs, isNumeralSign c = true := by
  obtain ⟨minus, body, afterWhole, afterFraction, rfl, signed, whole?, fraction?, exponent?⟩ :=
    parts_of_ofChars? numeral
  obtain ⟨whole, rfl, nonempty, digits⟩ := someDigits?_takes whole?
  obtain ⟨fraction, rfl, fractionSigns⟩ := fraction?_takes fraction?
  obtain ⟨exponent, rfl, exponentSigns⟩ := exponent?_takes exponent?
  obtain ⟨d, ds, rfl⟩ := List.exists_cons_of_ne_nil nonempty
  have minusSign : ∀ c ∈ minus, c = '-' := by rcases signed with rfl | rfl <;> simp
  constructor
  · rcases signed with rfl | rfl
    · exact ⟨d, _, rfl, .inl (digits d List.mem_cons_self)⟩
    · exact ⟨'-', _, rfl, .inr rfl⟩
  · intro c member
    simp only [List.mem_append, List.append_nil] at member
    rcases member with member | member | member | member
    · rw [minusSign c member]
      rfl
    · exact isNumeralSign_of_isDigit (digits c member)
    · exact fractionSigns c member
    · exact exponentSigns c member

/-! Whole numbers are written in decimal digits, the first of which is zero only where it is the
only one. -/

theorem digits_of_isDigit {cs : List Char} (all : ∀ c ∈ cs, c.isDigit = true) :
    digits cs = (cs.map fun c => c.toNat - '0'.toNat, []) := by
  have taken : cs.takeWhile Char.isDigit = cs := List.takeWhile_eq_self_iff.mpr all
  have left : cs.dropWhile Char.isDigit = [] := List.dropWhile_eq_nil_iff.mpr all
  rw [digits, taken, left, ← List.filterMap_eq_map]
  congr 1
  exact List.filterMap_congr fun c member => hexDigit?_of_isDigit (all c member)

theorem head?_toDigits {m : Nat} (positive : 0 < m) : (Nat.toDigits 10 m).head? ≠ some '0' := by
  induction m using Nat.strongRecOn with
  | ind m ih =>
    rw [Nat.toDigits_eq_if (by decide)]
    split
    · next small =>
      have : ∀ k < 10, 0 < k → Nat.digitChar k ≠ '0' := by decide
      simpa using this m small positive
    · next large =>
      obtain ⟨c, cs, front⟩ :=
        List.exists_cons_of_ne_nil (Nat.toDigits_ne_nil (n := m / 10) (b := 10))
      have first := ih (m / 10) (by omega) (by omega)
      rw [front] at first ⊢
      exact first

/-- The decimal digits of a number. -/
def decimal (m : Nat) : List Nat := (Nat.toDigits 10 m).map fun c => c.toNat - '0'.toNat

theorem natOfDigits_decimal (m : Nat) : natOfDigits (decimal m) = m := by
  rw [natOfDigits, decimal, List.foldl_map, ← Nat.ofDigitChars_eq_foldl,
    Nat.ofDigitChars_ten_toDigits]

theorem someDigits?_toDigits (m : Nat) :
    someDigits? (Nat.toDigits 10 m) = some (decimal m, []) := by
  have all : ∀ c ∈ Nat.toDigits 10 m, c.isDigit = true := fun c member =>
    Nat.isDigit_of_mem_toDigits (by decide) (by decide) member
  rw [someDigits?, digits_of_isDigit all]
  split
  · next none' =>
    have := (Prod.mk.inj none').1
    exact absurd (List.map_eq_nil_iff.mp this) Nat.toDigits_ne_nil
  · rfl

theorem not_leadingZero (m : Nat) :
    ¬ ((decimal m).length > 1 ∧ (decimal m).head? = some 0) := by
  rintro ⟨several, zero⟩
  rw [decimal, List.length_map] at several
  rw [decimal, List.head?_map] at zero
  obtain ⟨c, first, value⟩ := Option.map_eq_some_iff.mp zero
  have positive : 0 < m := by
    rcases Nat.eq_zero_or_pos m with rfl | positive
    · simp at several
    · exact positive
  have digit := Nat.isDigit_of_mem_toDigits (by decide) (by decide) (List.mem_of_head? first)
  have isZero : c = '0' := by
    rw [Char.isDigit_iff_toNat] at digit
    apply Char.toNat_inj.mp
    omega
  exact head?_toDigits positive (isZero ▸ first)

theorem ofChars?_toDigits (negative : Bool) (m : Nat) :
    ofChars? ((if negative then ['-'] else []) ++ Nat.toDigits 10 m) = some {
      negative, whole := decimal m, fraction := none, exponent := none } := by
  unfold ofChars?
  split
  next negative' body signed =>
  have split : (negative', body) = (negative, Nat.toDigits 10 m) := by
    rw [← signed]
    cases negative with
    | true => rfl
    | false =>
      obtain ⟨c, cs, front⟩ :=
        List.exists_cons_of_ne_nil (Nat.toDigits_ne_nil (n := m) (b := 10))
      have digit : c.isDigit = true :=
        Nat.isDigit_of_mem_toDigits (by decide) (by decide) (front ▸ List.mem_cons_self)
      simp only [Bool.false_eq_true, if_false, List.nil_append, front]
      split
      · next minus =>
        cases minus
        cases digit
      · rfl
  cases split
  simp only [someDigits?_toDigits, not_leadingZero, if_false, fraction?, exponent?,
    Option.bind_eq_bind, Option.bind_some, List.isEmpty_nil, if_true]

/-- A whole number of 64 bits, signed or not, is read as it is written. -/
theorem read?_wholeNumber {n : Int} (low : -0x8000000000000000 ≤ n)
    (high : n < 0x10000000000000000) : read? (wholeNumber n) = some (.integer n) := by
  have signed : wholeNumber n =
      (if decide (n < 0) then ['-'] else []) ++ Nat.toDigits 10 n.natAbs := by
    unfold wholeNumber
    split <;> simp [*]
  rw [read?, signed, ofChars?_toDigits, Option.map_some, value]
  simp only [natOfDigits_decimal]
  rcases Int.lt_or_le n 0 with below | above
  · have fits : 0 < n.natAbs ∧ n.natAbs ≤ 0x8000000000000000 := by omega
    have back : -(n.natAbs : Int) = n := by omega
    simp only [below, decide_true, if_true, Option.isNone_none, fits, and_self, back]
  · have fits : n.natAbs < 0x10000000000000000 := by omega
    have back : (n.natAbs : Int) = n := by omega
    simp only [Int.not_lt.mpr above, decide_false, Bool.false_eq_true, if_false,
      Option.isNone_none, true_and, if_pos fits, back]

/-! The value of a numeral, and the double that is read. -/

/-- The digits without the point. -/
def significand (n : Numeral) : Nat := natOfDigits (n.whole ++ n.fraction.getD [])

/-- The power of ten that belongs to the digits without the point. -/
def scale (n : Numeral) : Int := n.power - (n.fraction.getD []).length

/-- The value of the numeral, which need not be a double, rounds to this one. -/
def Denotes (n : Numeral) (x : Double) : Prop :=
  n.negative = x.isNegative ∧
    Double.RoundsDecimal (if n.negative then -(n.significand : Int) else n.significand) n.scale x

/-- A power of ten is the double nearest to it, exact or not. -/
theorem powerOfTen_rounds (n : Nat) : Double.RoundsDecimal 1 n (powerOfTen n) := by
  have rounded := Double.rounds_ofNat (Nat.pow 10 n)
  have value : (1 : Int) * (Double.oneUnits * 10 ^ (n : Int).toNat : Nat) =
      (Nat.pow 10 n * Double.oneUnits : Nat) := by
    rw [Int.one_mul, Int.toNat_natCast, Nat.mul_comm]
    rfl
  have whole : 10 ^ (-(n : Int)).toNat = 1 := by
    rw [Int.toNat_of_nonpos (by omega), Nat.pow_zero]
  rw [Double.RoundsDecimal, value, whole]
  exact rounded

theorem le_natOfDigits (n : Nat) (ds : List Nat) : n ≤ ds.foldl (fun n d => 10 * n + d) n := by
  induction ds generalizing n with
  | nil => exact Nat.le_refl n
  | cons d ds ih => exact Nat.le_trans (by omega) (ih (10 * n + d))

theorem append?_of_lt {n d : Nat} (fits : 10 * n + d < 0x10000000000000000) :
    append? n d = some (10 * n + d) := if_pos fits

theorem appendWhole_of_lt {n : Nat} {ds : List Nat}
    (fits : ds.foldl (fun n d => 10 * n + d) n < 0x10000000000000000) :
    appendWhole n ds = (ds.foldl (fun n d => 10 * n + d) n, 0) := by
  induction ds generalizing n with
  | nil => rfl
  | cons d ds ih =>
    rw [appendWhole, append?_of_lt (Nat.lt_of_le_of_lt (le_natOfDigits _ ds) fits)]
    exact ih fits

theorem appendFraction_of_lt {n : Nat} {ds : List Nat}
    (fits : ds.foldl (fun n d => 10 * n + d) n < 0x10000000000000000) :
    appendFraction n ds = (ds.foldl (fun n d => 10 * n + d) n, ds.length) := by
  induction ds generalizing n with
  | nil => rfl
  | cons d ds ih =>
    rw [appendFraction, append?_of_lt (Nat.lt_of_le_of_lt (le_natOfDigits _ ds) fits)]
    simp only [ih fits, List.foldl_cons, List.length_cons]

/-- Of digits that fit in 64 bits none is dropped: the double of all of them is scaled. -/
theorem real?_of_lt {n : Numeral} (fits : n.significand < 0x10000000000000000) :
    n.real? = (scale? (.ofNat n.significand) n.scale).map fun x =>
      if n.negative then -x else x := by
  unfold significand natOfDigits at *
  rw [List.foldl_append] at *
  have whole := Nat.lt_of_le_of_lt (le_natOfDigits _ (n.fraction.getD [])) fits
  have moved : ((0 : Nat) : Int) - (n.fraction.getD []).length + n.power = n.scale := by
    unfold scale; omega
  simp only [real?, appendWhole_of_lt whole, appendFraction_of_lt fits, moved, Option.map_eq_bind]
  rfl

/-- Within 308 places one operation with a power of ten scales. -/
theorem scale?_of_near {x : Double} {exponent : Int} (near : exponent.natAbs ≤ 308) :
    scale? x exponent =
      if exponent < 0 then some (x / powerOfTen exponent.natAbs)
      else (some (x * powerOfTen exponent.natAbs)).filter fun y => !y.isInfinite := by
  unfold scale?
  split
  · rw [shrink, if_pos near]
  · rw [if_pos (by omega), Option.filter_some]
    cases infinite : (x * powerOfTen exponent.natAbs).isInfinite <;> simp [infinite]

/-- Beyond 308 places only zero is not too large. -/
theorem scale?_of_far {x : Double} {exponent : Int} (far : 308 < exponent) :
    scale? x exponent = (some x).filter Double.isZero := by
  rw [scale?, if_neg (by omega), if_neg (by omega), Option.filter_some]

theorem decimal_of_lt_ten {k : Nat} (digit : k < 10) : decimal k = [k] := by
  rw [decimal, Nat.toDigits_of_lt_base digit, List.map_singleton]
  exact congrArg ([·]) (Nat.toNat_digitChar_sub_48_of_lt_ten digit)

/-- A zero, a point and a digit are so many tenths. -/
theorem read?_tenths {k : Nat} (digit : k < 10) :
    read? ['0', '.', Nat.digitChar k] = some (.real (Double.ofNat k / powerOfTen 1)) := by
  have place : someDigits? [Nat.digitChar k] = some ([k], []) := by
    rw [← Nat.toDigits_of_lt_base digit, someDigits?_toDigits, decimal_of_lt_ten digit]
  have whole : someDigits? ['0', '.', Nat.digitChar k] = some ([0], ['.', Nat.digitChar k]) := rfl
  have parsed : ofChars? ['0', '.', Nat.digitChar k] = some ⟨false, [0], some [k], none⟩ := by
    simp [ofChars?, whole, fraction?, place, exponent?]
  have digits : significand ⟨false, [0], some [k], none⟩ = k := by simp [significand, natOfDigits]
  have real : real? ⟨false, [0], some [k], none⟩ = some (Double.ofNat k / powerOfTen 1) := by
    rw [real?_of_lt (by omega), digits]
    exact congrArg _ (@scale?_of_near _ (-1) (by decide))
  simp [read?, parsed, value, real]

end Numeral

end TimingExplorer.Json
