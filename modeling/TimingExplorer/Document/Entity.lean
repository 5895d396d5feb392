import TimingExplorer.AnalysisPoint
import TimingExplorer.Arena
import TimingExplorer.Document.Decode
import TimingExplorer.Document.Encode
import TimingExplorer.Rect

/-!
Written forms of identities, analysis points, rectangles and arenas. An id is its number; a terminal
is an object whose only name tells its kind.
-/

namespace TimingExplorer

open Document

namespace Id

variable {kind : IdKind}

def decode : Decoder (Id kind) := fun v => (Decoder.index v).map Id.mk

def encode (id : Id kind) : Value := Encode.nat id.raw

end Id

namespace Terminal

def decode : Decoder Terminal
  | .object [("ITerm", v)] => (Id.decode v).map ofInstance
  | .object [("BTerm", v)] => (Id.decode v).map ofBlock
  | _ => none

def encode : Terminal → Value
  | ofInstance id => .object [("ITerm", id.encode)]
  | ofBlock id => .object [("BTerm", id.encode)]

end Terminal

namespace MinMax

def choices : List (String × MinMax) := [("min", min), ("max", max)]

def decode : Decoder MinMax := Decoder.choice .json choices

def name : MinMax → String
  | min => "min"
  | max => "max"

def encode (m : MinMax) : Value := .string m.name

end MinMax

namespace AnalysisPoint

def fieldNames : List String := ["corner", "min_max"]

def ofFields? (r : Fields) : Option AnalysisPoint := do
  return {
    corner := ← r.required "corner" Id.decode
    minMax := ← r.required "min_max" MinMax.decode }

def decode : Decoder AnalysisPoint := fun v =>
  (Fields.ofValue? .json fieldNames v).bind ofFields?

def encode (p : AnalysisPoint) : Value :=
  .object [("corner", p.corner.encode), ("min_max", p.minMax.encode)]

end AnalysisPoint

namespace Rect

def fieldNames : List String := ["x_lo", "y_lo", "x_hi", "y_hi"]

/-- The corners stay as they are written, normalised or not. -/
def ofFields? (r : Fields) : Option Rect := do
  return {
    xLo := ← r.required "x_lo" Decoder.int64
    yLo := ← r.required "y_lo" Decoder.int64
    xHi := ← r.required "x_hi" Decoder.int64
    yHi := ← r.required "y_hi" Decoder.int64 }

def decode : Decoder Rect := fun v =>
  (Fields.ofValue? .json fieldNames v).bind ofFields?

def encode (r : Rect) : Value :=
  .object [
    ("x_lo", .integer r.xLo), ("y_lo", .integer r.yLo),
    ("x_hi", .integer r.xHi), ("y_hi", .integer r.yHi)]

end Rect

namespace Arena

variable {kind : IdKind} {α : Type}

def fieldNames : List String := ["items"]

def decode (item : Decoder α) : Decoder (Arena kind α) := fun v => do
  let r ← Fields.ofValue? .json fieldNames v
  return ofList (← r.required "items" (Decoder.list item))

def encode (item : α → Value) (a : Arena kind α) : Value :=
  .object [("items", Encode.list item a.toList)]

end Arena

end TimingExplorer
