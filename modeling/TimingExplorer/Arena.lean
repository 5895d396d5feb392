import TimingExplorer.Id

/-!
Dense storage addressed by id. Items are only ever appended, so the id of an item is its position
and stays valid for as long as the arena lives. The lemmas describe every operation through `get?`
and `size`.
-/

namespace TimingExplorer

structure Arena (kind : IdKind) (α : Type) where
  items : Array α
  deriving Repr

namespace Arena

variable {kind : IdKind} {α β : Type}

def empty : Arena kind α := ⟨#[]⟩

instance : Inhabited (Arena kind α) := ⟨empty⟩

def size (a : Arena kind α) : Nat := a.items.size

def isEmpty (a : Arena kind α) : Bool := a.items.isEmpty

/-- The id that the next `push` gives out. -/
def nextId (a : Arena kind α) : Id kind := ⟨a.items.size⟩

/-- Stores an item under `nextId`. -/
def push (a : Arena kind α) (item : α) : Arena kind α := ⟨a.items.push item⟩

/-- Stores an item and returns its id. -/
def alloc (a : Arena kind α) (item : α) : Id kind × Arena kind α := (a.nextId, a.push item)

/-- The item of an id, or none for an id that this arena never gave out. -/
def get? (a : Arena kind α) (id : Id kind) : Option α := a.items[id.raw]?

def contains (a : Arena kind α) (id : Id kind) : Bool := decide (id.raw < a.items.size)

/-- Changes the item of an id; a foreign id changes nothing. -/
def modify (a : Arena kind α) (id : Id kind) (f : α → α) : Arena kind α :=
  ⟨a.items.modify id.raw f⟩

/-- Changes the item of an id, or fails for a foreign one. -/
def modify? (a : Arena kind α) (id : Id kind) (f : α → α) : Option (Arena kind α) :=
  if a.contains id then some (a.modify id f) else none

/-- The items in order of their ids. -/
def toList (a : Arena kind α) : List α := a.items.toList

def ofList (items : List α) : Arena kind α := ⟨items.toArray⟩

/-- The ids given out so far, ascending. -/
def ids (a : Arena kind α) : List (Id kind) := (List.range a.size).map Id.mk

/-- The items with their ids, ascending. -/
def entries (a : Arena kind α) : List (Id kind × α) :=
  a.toList.zipIdx.map fun (item, index) => (⟨index⟩, item)

/-- The first id whose item satisfies the test. -/
def find? (a : Arena kind α) (test : α → Bool) : Option (Id kind) :=
  (a.toList.findIdx? test).map Id.mk

@[simp] theorem get?_empty (id : Id kind) : (empty : Arena kind α).get? id = none := by
  simp [empty, get?]

@[simp] theorem size_empty : (empty : Arena kind α).size = 0 := rfl

@[simp] theorem size_push (a : Arena kind α) (item : α) : (a.push item).size = a.size + 1 := by
  simp [push, size]

theorem get?_push (a : Arena kind α) (item : α) (id : Id kind) :
    (a.push item).get? id = if id = a.nextId then some item else a.get? id := by
  obtain ⟨raw⟩ := id
  simp [push, get?, nextId, Array.getElem?_push]

@[simp] theorem size_modify (a : Arena kind α) (id : Id kind) (f : α → α) :
    (a.modify id f).size = a.size := by
  simp [modify, size]

theorem get?_modify (a : Arena kind α) (id other : Id kind) (f : α → α) :
    (a.modify id f).get? other = if id = other then (a.get? other).map f else a.get? other := by
  obtain ⟨raw⟩ := id
  obtain ⟨other⟩ := other
  simp [modify, get?, Array.getElem?_modify]

theorem contains_iff (a : Arena kind α) (id : Id kind) :
    a.contains id = true ↔ id.raw < a.size := by
  simp [contains, size]

theorem isSome_get? (a : Arena kind α) (id : Id kind) : (a.get? id).isSome = a.contains id := by
  by_cases h : id.raw < a.items.size <;> simp [get?, contains, h]

theorem getElem?_toList (a : Arena kind α) (i : Nat) : a.toList[i]? = a.get? ⟨i⟩ :=
  Array.getElem?_toList

theorem length_toList (a : Arena kind α) : a.toList.length = a.size := rfl

theorem toList_push (a : Arena kind α) (item : α) : (a.push item).toList = a.toList ++ [item] :=
  Array.toList_push

/-- Arenas whose items cannot be told apart by a view of them. -/
theorem map_toList_eq {a b : Arena kind α} (view : α → β)
    (same : ∀ id, (a.get? id).map view = (b.get? id).map view) :
    a.toList.map view = b.toList.map view := by
  refine List.ext_getElem? fun i => ?_
  rw [List.getElem?_map, List.getElem?_map, getElem?_toList, getElem?_toList]
  exact same ⟨i⟩

theorem modify_eq_self {a : Arena kind α} {id : Id kind} {f : α → α}
    (kept : ∀ item, a.get? id = some item → f item = item) : a.modify id f = a := by
  refine congrArg Arena.mk (Array.ext_getElem? fun i => ?_)
  rw [Array.getElem?_modify]
  split
  · next here =>
    subst here
    cases found : a.items[id.raw]? with
    | none => rfl
    | some item => exact congrArg some (kept item found)
  · rfl

theorem modify_push_nextId (a : Arena kind α) (item : α) (f : α → α) :
    (a.push item).modify a.nextId f = a.push (f item) := by
  refine congrArg Arena.mk (Array.ext_getElem? fun i => ?_)
  simp only [push, nextId, Array.getElem?_modify, Array.getElem?_push]
  by_cases last : i = a.items.size
  · simp [last]
  · simp [last, eq_comm]

theorem modify_push (a : Arena kind α) (item : α) (f : α → α) {id : Id kind}
    (old : a.contains id = true) :
    (a.push item).modify id f = (a.modify id f).push item := by
  refine congrArg Arena.mk (Array.ext_getElem? fun i => ?_)
  have below : id.raw < a.items.size := (a.contains_iff id).mp old
  simp only [push, modify, Array.getElem?_modify, Array.getElem?_push, Array.size_modify]
  by_cases last : i = a.items.size
  · simp [last, Nat.ne_of_lt below]
  · simp [last]

end Arena

end TimingExplorer
