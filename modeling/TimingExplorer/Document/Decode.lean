import TimingExplorer.Document.Value
import TimingExplorer.Double

/-!
Reading typed values out of a document tree. A record may be written as an object, in which unknown
names are passed over and a known name may stand once, or as an array of its fields in order, of
which the last ones may be missing. A choice is written as its name, or as an object whose only name
it is. The notations differ in two rules, which a `Dialect` names.
-/

namespace TimingExplorer.Document

/-- Where the notations differ. -/
structure Dialect where
  /-- What may stand beside the name of a choice that carries nothing. -/
  isUnit : Value → Bool
  /-- Whether an array that stands for a record may go on after the last field. What follows is
  passed over. -/
  allowsSurplus : Bool

def jsonUnit : Value → Bool
  | .null => true
  | _ => false

def tomlUnit : Value → Bool
  | .array [] => true
  | .object [] => true
  | _ => false

def Dialect.json : Dialect where
  isUnit := jsonUnit
  allowsSurplus := false

def Dialect.toml : Dialect where
  isUnit := tomlUnit
  allowsSurplus := true

/-- A reader of one type. It says nothing about why it refuses. -/
abbrev Decoder (α : Type) := Value → Option α

namespace Decoder

variable {α : Type}

def bool : Decoder Bool
  | .bool b => some b
  | _ => none

def string : Decoder String
  | .string text => some text
  | _ => none

/-- A whole number from `low` to `high`, both included. -/
def integer (low high : Int) : Decoder Int
  | .integer n => if low ≤ n ∧ n ≤ high then some n else none
  | _ => none

/-- A signed whole number of 64 bits. -/
def int64 : Decoder Int := integer (-0x8000000000000000) 0x7fffffffffffffff

/-- A natural number below the bound. -/
def natBelow (bound : Nat) : Decoder Nat
  | .integer n => if 0 ≤ n ∧ n < bound then some n.toNat else none
  | _ => none

/-- An index of 32 bits. -/
def index : Decoder Nat := natBelow 0x100000000

/-- A count of 64 bits. -/
def count : Decoder Nat := natBelow 0x10000000000000000

/-- A finite number; a whole one is rounded to the nearest double. -/
def real : Decoder Double := fun v =>
  let x? := match v with
    | .real x => some x
    | .integer n => some (.ofInt n)
    | _ => none
  x?.filter Double.isFinite

/-- A value, or null for its absence. -/
def nullable (decode : Decoder α) : Decoder (Option α)
  | .null => some none
  | v => (decode v).map some

def list (decode : Decoder α) : Decoder (List α)
  | .array items => items.mapM decode
  | _ => none

/-- An array of exactly two. -/
def pair (decode : Decoder α) : Decoder (α × α)
  | .array [a, b] => do return (← decode a, ← decode b)
  | _ => none

/-- One of the named choices, none of which carries a value. -/
def choice (dialect : Dialect) (choices : List (String × α)) : Decoder α
  | .string name => choices.lookup name
  | .object [(name, payload)] => if dialect.isUnit payload then choices.lookup name else none
  | _ => none

end Decoder

/-- The known fields of a record that a document gives, each at most once. -/
structure Fields where
  entries : List (String × Value)

namespace Fields

variable {α : Type}

/-- Takes a value for a record with these field names. Where a date or time stands for a record,
it is one that gives no field. -/
def ofValue? (dialect : Dialect) (names : List String) : Value → Option Fields
  | .object fields =>
    let known := fields.filter fun field => names.contains field.1
    if (known.map Prod.fst).Nodup then some ⟨known⟩ else none
  | .array items =>
    if items.length ≤ names.length ∨ dialect.allowsSurplus then some ⟨names.zip items⟩ else none
  | .dateTime => some ⟨[]⟩
  | _ => none

def get? (r : Fields) (name : String) : Option Value := r.entries.lookup name

/-- A field that has to be there. -/
def required (r : Fields) (name : String) (decode : Decoder α) : Option α :=
  (r.get? name).bind decode

/-- A field that has the given value where it is not written. -/
def withDefault (r : Fields) (name : String) (default : α) (decode : Decoder α) : Option α :=
  match r.get? name with
  | none => some default
  | some v => decode v

/-- A field that may be left out or null. -/
def optional (r : Fields) (name : String) (decode : Decoder α) : Option (Option α) :=
  r.withDefault name none decode.nullable

end Fields

end TimingExplorer.Document
