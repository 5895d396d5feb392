import TimingExplorer.Document.Value
import TimingExplorer.Double
import TimingExplorer.Toml.Text

/-!
Values of TOML that hold no others: truth values, numbers, dates and times, strings.
-/

namespace TimingExplorer.Toml

open Toml.Parser Document Text

/-- Digits of a base, with single underscores allowed between them. -/
def digits (isDigit : Char → Bool) : Parser (List Char) := do
  let signs ← run fun c => isDigit c || c = '_'
  let parts := signs.splitOn '_'
  if parts.any List.isEmpty then fail else return parts.flatten

def natOfDigits (base : Nat) (signs : List Char) : Nat :=
  (signs.filterMap hexDigit?).foldl (fun n d => base * n + d) 0

/-- Whether a minus stands at the front; a plus may. -/
def sign : Parser Bool := do
  let minus ← optional (exactly "-")
  if minus.isNone then
    let _ ← optional (exactly "+")
  return minus.isSome

/-- Decimal digits that begin with zero only if they are zero. -/
def wholePart : Parser (List Char) := do
  let signs ← digits Char.isDigit
  if signs.length > 1 ∧ signs.head? = some '0' then fail else return signs

/-- An integer has a sign and 63 bits. -/
def bounded (n : Int) : Parser Value :=
  if -0x8000000000000000 ≤ n ∧ n < 0x8000000000000000 then return .integer n else fail

def basedInteger (mark : String) (base : Nat) (isDigit : Char → Bool) : Parser Value := do
  exactly mark
  let signs ← digits isDigit
  bounded (natOfDigits base signs)

def decimalInteger : Parser Value := do
  let negative ← sign
  let magnitude := natOfDigits 10 (← wholePart)
  bounded (if negative then -(magnitude : Int) else magnitude)

def integer : Parser Value :=
  basedInteger "0x" 16 (fun c => (hexDigit? c).isSome)
    <|> basedInteger "0o" 8 (fun c => '0' ≤ c && c ≤ '7')
    <|> basedInteger "0b" 2 (fun c => c = '0' || c = '1')
    <|> decimalInteger

/-- The double nearest to `mantissa` times a power of ten. Outside the range of doubles the power is
not computed. -/
def nearest (mantissa : Nat) (exponent : Int) : Double :=
  let top := (Nat.toDigits 10 mantissa).length + exponent
  if mantissa = 0 ∨ top < -330 then 0
  else if 310 < top then .infinity
  else .ofScientific mantissa (exponent < 0) exponent.natAbs

def fraction : Parser (List Char) := do
  exactly "."
  digits Char.isDigit

def exponent : Parser Int := do
  let _ ← one fun c => c = 'e' || c = 'E'
  let negative ← sign
  let magnitude := natOfDigits 10 (← digits Char.isDigit)
  return if negative then -(magnitude : Int) else magnitude

/-- A number with a fraction, an exponent or both. One that is too large is refused if positive. -/
def decimalReal : Parser Value := do
  let negative ← sign
  let whole ← wholePart
  let fraction ← optional fraction
  let exponent ← optional exponent
  if fraction.isNone ∧ exponent.isNone then fail
  let places := fraction.getD []
  let x := nearest (natOfDigits 10 (whole ++ places)) (exponent.getD 0 - places.length)
  if negative then return .real (-x)
  else if x.isInfinite then fail
  else return .real x

def specialReal : Parser Value := do
  let negative ← sign
  let x ← (do exactly "inf"; return Double.infinity) <|> (do exactly "nan"; return Double.nan)
  return .real (if negative then -x else x)

/-- Exactly so many digits, with a value from `low` to `high`. -/
def fixedDigits (count low high : Nat) : Parser Nat := fun cs =>
  let signs := cs.take count
  let n := natOfDigits 10 signs
  if signs.length = count ∧ signs.all Char.isDigit ∧ low ≤ n ∧ n ≤ high then
    some (n, cs.drop count)
  else none

def daysInMonth (year month : Nat) : Nat :=
  if month = 2 then
    if year % 4 = 0 ∧ (year % 100 ≠ 0 ∨ year % 400 = 0) then 29 else 28
  else if month = 4 ∨ month = 6 ∨ month = 9 ∨ month = 11 then 30
  else 31

def date : Parser Unit := do
  let year ← fixedDigits 4 0 9999
  exactly "-"
  let month ← fixedDigits 2 1 12
  exactly "-"
  let _ ← fixedDigits 2 1 (daysInMonth year month)

/-- Hours, minutes and seconds; a second may be a leap second. -/
def time : Parser Unit := do
  let _ ← fixedDigits 2 0 23
  exactly ":"
  let _ ← fixedDigits 2 0 59
  exactly ":"
  let _ ← fixedDigits 2 0 60
  let _ ← optional (exactly "." *> one Char.isDigit *> run Char.isDigit)

def zone : Parser Unit := (do let _ ← one fun c => c = 'Z' || c = 'z') <|> do
  let _ ← one fun c => c = '+' || c = '-'
  let _ ← fixedDigits 2 0 23
  exactly ":"
  let _ ← fixedDigits 2 0 59

def timeOfDate : Parser Unit := do
  let _ ← one fun c => c = 'T' || c = 't' || c = ' '
  time
  let _ ← optional zone

/-- A date, a date with a time and perhaps a zone, or a time. -/
def dateTime : Parser Value := do
  (do date; let _ ← optional timeOfDate) <|> time
  return .dateTime

def truth : Parser Value :=
  (do exactly "true"; return .bool true) <|> (do exactly "false"; return .bool false)

def scalar : Parser Value :=
  (do return .string (← string)) <|> dateTime <|> decimalReal <|> specialReal <|> integer <|> truth

end TimingExplorer.Toml
