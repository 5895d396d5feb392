/-!
A queue with two ends, kept as two lists: `front` in order and `back` in reverse. `toList` is the
queue from front to back, and the lemmas describe every operation through it.
-/

namespace TimingExplorer

structure Deque (α : Type) where
  front : List α := []
  back : List α := []
  deriving Repr

namespace Deque

variable {α : Type}

def empty : Deque α := {}

def toList (q : Deque α) : List α := q.front ++ q.back.reverse

def pushFront (q : Deque α) (a : α) : Deque α := { q with front := a :: q.front }

def pushBack (q : Deque α) (a : α) : Deque α := { q with back := a :: q.back }

/-- The first entry and the queue without it, or none from an empty queue. -/
def popFront? (q : Deque α) : Option (α × Deque α) :=
  match q.front with
  | a :: front => some (a, { q with front })
  | [] =>
    match q.back.reverse with
    | a :: front => some (a, { front, back := [] })
    | [] => none

@[simp] theorem toList_empty : (empty : Deque α).toList = [] := rfl

@[simp] theorem toList_pushFront (q : Deque α) (a : α) :
    (q.pushFront a).toList = a :: q.toList := rfl

@[simp] theorem toList_pushBack (q : Deque α) (a : α) :
    (q.pushBack a).toList = q.toList ++ [a] := by
  simp [pushBack, toList]

theorem popFront?_eq_none_iff (q : Deque α) : q.popFront? = none ↔ q.toList = [] := by
  obtain ⟨front, back⟩ := q
  cases front with
  | cons a front => simp [popFront?, toList]
  | nil =>
    cases h : back.reverse with
    | nil => simp [popFront?, toList, h]
    | cons a rest => simp [popFront?, toList, h]

theorem toList_of_popFront? {q rest : Deque α} {a : α} (h : q.popFront? = some (a, rest)) :
    q.toList = a :: rest.toList := by
  obtain ⟨front, back⟩ := q
  cases front with
  | cons b front =>
    simp only [popFront?, Option.some.injEq, Prod.mk.injEq] at h
    obtain ⟨rfl, rfl⟩ := h
    simp [toList]
  | nil =>
    cases hb : back.reverse with
    | nil => simp [popFront?, hb] at h
    | cons b tail =>
      simp only [popFront?, hb, Option.some.injEq, Prod.mk.injEq] at h
      obtain ⟨rfl, rfl⟩ := h
      simp [toList, hb]

end Deque

end TimingExplorer
