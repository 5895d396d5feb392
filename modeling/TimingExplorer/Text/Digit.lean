/-!
Digits of the ASCII alphabet.
-/

namespace TimingExplorer.Text

/-- The value of a digit of base sixteen in either case; decimal digits are among them. -/
def hexDigit? (c : Char) : Option Nat :=
  if c.isDigit then some (c.toNat - '0'.toNat)
  else if 'a' ≤ c ∧ c ≤ 'f' then some (c.toNat - 'a'.toNat + 10)
  else if 'A' ≤ c ∧ c ≤ 'F' then some (c.toNat - 'A'.toNat + 10)
  else none

end TimingExplorer.Text
