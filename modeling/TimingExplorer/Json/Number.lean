import TimingExplorer.Document.Value
import TimingExplorer.Double
import TimingExplorer.Text.Digit

/-!
Numbers of JSON text. A numeral without fraction and exponent that fits in 64 bits is that whole
number. Every other numeral is a double: the leading digits that fit in 64 bits, rounded, are scaled
by the power of ten that the exponent and the digits' places ask for, in one multiplication or
division wherever that power is itself a double.
-/

namespace TimingExplorer.Json

open Document Text

/-- The parts of a numeral; digits are in reading order. -/
structure Numeral where
  negative : Bool
  whole : List Nat
  fraction : Option (List Nat)
  exponent : Option (Bool × List Nat)
  deriving DecidableEq

namespace Numeral

/-- The digits at the front, and what follows them. -/
def digits (cs : List Char) : List Nat × List Char :=
  ((cs.takeWhile Char.isDigit).filterMap hexDigit?, cs.dropWhile Char.isDigit)

/-- At least one digit at the front. -/
def someDigits? (cs : List Char) : Option (List Nat × List Char) :=
  match digits cs with
  | ([], _) => none
  | found => some found

def fraction? : List Char → Option (Option (List Nat) × List Char)
  | '.' :: cs => (someDigits? cs).map fun (ds, rest) => (some ds, rest)
  | cs => some (none, cs)

def sign : List Char → Bool × List Char
  | '-' :: cs => (true, cs)
  | '+' :: cs => (false, cs)
  | cs => (false, cs)

def exponent? : List Char → Option (Option (Bool × List Nat) × List Char)
  | [] => some (none, [])
  | c :: cs =>
    if c = 'e' ∨ c = 'E' then
      let (negative, rest) := sign cs
      (someDigits? rest).map fun (ds, rest) => (some (negative, ds), rest)
    else some (none, c :: cs)

/-- Reads all of a text as one numeral. A whole part of several digits does not begin with zero. -/
def ofChars? (cs : List Char) : Option Numeral := do
  let (negative, cs) := match cs with
    | '-' :: rest => (true, rest)
    | cs => (false, cs)
  let (whole, cs) ← someDigits? cs
  if whole.length > 1 ∧ whole.head? = some 0 then none
  let (fraction, cs) ← fraction? cs
  let (exponent, cs) ← exponent? cs
  if cs.isEmpty then some { negative, whole, fraction, exponent } else none

def natOfDigits (ds : List Nat) : Nat := ds.foldl (fun n d => 10 * n + d) 0

/-- Appends a digit where the result stays below 2^64. -/
def append? (n d : Nat) : Option Nat :=
  let next := 10 * n + d
  if next < 0x10000000000000000 then some next else none

/-- Appends digits as long as they fit; the second part counts those that no longer did. -/
def appendWhole (n : Nat) : List Nat → Nat × Nat
  | [] => (n, 0)
  | d :: ds =>
    match append? n d with
    | some next => appendWhole next ds
    | none => (n, ds.length + 1)

/-- Appends digits as long as they fit; the second part counts those that did. -/
def appendFraction (n : Nat) : List Nat → Nat × Nat
  | [] => (n, 0)
  | d :: ds =>
    match append? n d with
    | some next =>
      let (result, places) := appendFraction next ds
      (result, places + 1)
    | none => (n, 0)

/-- The power of ten that is nearest to 10^n. -/
def powerOfTen (n : Nat) : Double := .ofNat (Nat.pow 10 n)

/-- Moves the point of a double to the left, 308 places at a time while more are left. -/
def shrink (x : Double) (places : Nat) : Double :=
  if places ≤ 308 then x / powerOfTen places
  else if x.isZero then x
  else shrink (x / powerOfTen 308) (places - 308)
termination_by places

/-- Moves the point of a double; none where the result is too large. -/
def scale? (x : Double) (exponent : Int) : Option Double :=
  if exponent < 0 then some (shrink x exponent.natAbs)
  else if exponent ≤ 308 then
    let y := x * powerOfTen exponent.natAbs
    if y.isInfinite then none else some y
  else if x.isZero then some x
  else none

/-- The power of ten that the exponent asks for. -/
def power (n : Numeral) : Int :=
  match n.exponent with
  | none => 0
  | some (true, ds) => -(natOfDigits ds : Int)
  | some (false, ds) => natOfDigits ds

/-- The double of a numeral; none where it is too large. -/
def real? (n : Numeral) : Option Double := do
  let (leading, dropped) := appendWhole 0 n.whole
  let (significand, places) := appendFraction leading (n.fraction.getD [])
  let x ← scale? (.ofNat significand) (dropped - places + n.power)
  return if n.negative then -x else x

/-- A whole number of 64 bits, signed or not, has its value; negative zero is a double. -/
def value (n : Numeral) : Value :=
  let magnitude := natOfDigits n.whole
  if n.fraction.isNone ∧ n.exponent.isNone ∧
      (if n.negative then 0 < magnitude ∧ magnitude ≤ 0x8000000000000000
        else magnitude < 0x10000000000000000) then
    .integer (if n.negative then -(magnitude : Int) else magnitude)
  else
    match n.real? with
    | some x => .real x
    | none => .unreadable

end Numeral

end TimingExplorer.Json
