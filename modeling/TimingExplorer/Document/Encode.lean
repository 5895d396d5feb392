import TimingExplorer.Document.Value
import TimingExplorer.Double

/-!
Writing typed values as document trees.
-/

namespace TimingExplorer.Document.Encode

/-- Numbers that are not finite have no notation; null stands for them. -/
def real (x : Double) : Value :=
  if x.isFinite then .real x else .null

def nat (n : Nat) : Value := .integer n

def nullable {α : Type} (encode : α → Value) : Option α → Value
  | none => .null
  | some a => encode a

def list {α : Type} (encode : α → Value) (items : List α) : Value := .array (items.map encode)

end TimingExplorer.Document.Encode
