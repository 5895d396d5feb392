import TimingExplorer.Arena

/-!
A table of distinct names. The first mention of a name gives it the next number, and later mentions
give the same number again.
-/

namespace TimingExplorer

structure NameTable where
  names : Arena .name String := .empty
  numbers : Std.TreeMap String NameId := ∅

namespace NameTable

def empty : NameTable := {}

def size (t : NameTable) : Nat := t.names.size

def isEmpty (t : NameTable) : Bool := t.names.isEmpty

/-- The number of a name that has been mentioned. -/
def find? (t : NameTable) (name : String) : Option NameId := t.numbers[name]?

/-- Mentions a name: its number, and the table that holds it. -/
def intern (t : NameTable) (name : String) : NameId × NameTable :=
  match t.find? name with
  | some id => (id, t)
  | none =>
    let id := t.names.nextId
    (id, { names := t.names.push name, numbers := t.numbers.insert name id })

/-- The name of a number that this table gave out. -/
def resolve? (t : NameTable) (id : NameId) : Option String := t.names.get? id

/-- The table as shown to a reader: only its size. -/
def describe (t : NameTable) : String := s!"Interner \x7b len: {t.size} \x7d"

end NameTable

end TimingExplorer
