import Mathlib.Data.List.Nodup
import TimingExplorer.Proofs.Document.Records

/-!
What a TOML document gives for the fields of a record, and the values that stand for a text, a
number or a truth value.
-/
namespace TimingExplorer

namespace Document

variable {names : List String} {name : String} {v : Value} {r : Fields}

/-- A value that stands for a record: a table that gives no field twice, an array of the fields in
their order, or a date, which gives none. -/
inductive IsRecord (names : List String) : Value → Prop where
  | table {fields : List (String × Value)}
      (once : ∀ name ∈ names, (fields.map Prod.fst).count name ≤ 1) :
      IsRecord names (.object fields)
  | array (items : List Value) : IsRecord names (.array items)
  | date : IsRecord names .dateTime

/-- What a record gives for a field: the value under its name, or at its place. -/
def Value.field? (names : List String) (name : String) : Value → Option Value
  | .object fields => fields.lookup name
  | .array items => items[names.idxOf name]?
  | _ => none

theorem lookup_filter_contains (listed : name ∈ names) (fields : List (String × Value)) :
    (fields.filter fun field => names.contains field.1).lookup name = fields.lookup name := by
  induction fields with
  | nil => rfl
  | cons field rest ih =>
    obtain ⟨other, v⟩ := field
    rw [List.filter_cons, List.lookup_cons]
    by_cases same : name = other
    · subst same
      simp [listed]
    · rw [beq_false_of_ne same]
      split
      · rw [List.lookup_cons, beq_false_of_ne same, ih]
      · exact ih

theorem lookup_map {α : Type} [DecidableEq α] {name : α → String} (injective : name.Injective)
    (value : α → Value) (items : List α) (item : α) :
    (items.map fun a => (name a, value a)).lookup (name item) =
      if item ∈ items then some (value item) else none := by
  induction items with
  | nil => rfl
  | cons first rest ih =>
    rw [List.map_cons, List.lookup_cons]
    by_cases same : item = first
    · simp [same]
    · rw [beq_false_of_ne (injective.ne same)]
      simp [ih, same]

theorem lookup_zip (listed : name ∈ names) (items : List Value) :
    (names.zip items).lookup name = items[names.idxOf name]? := by
  induction names generalizing items with
  | nil => cases listed
  | cons first rest ih =>
    cases items with
    | nil => rfl
    | cons item items =>
      rw [List.zip_cons_cons, List.lookup_cons, List.idxOf_cons]
      by_cases same : name = first
      · simp [same]
      · rw [beq_false_of_ne same, beq_false_of_ne (Ne.symm same)]
        exact ih ((List.mem_cons.mp listed).resolve_left same) items

theorem Fields.get?_of_ofValue? (read : ofValue? .toml names v = some r) (listed : name ∈ names) :
    r.get? name = v.field? names name := by
  cases v with
  | object fields =>
    simp only [ofValue?, Option.ite_none_right_eq_some, Option.some.injEq] at read
    obtain ⟨_, rfl⟩ := read
    exact lookup_filter_contains listed fields
  | array items =>
    simp only [ofValue?, Option.ite_none_right_eq_some, Option.some.injEq] at read
    obtain ⟨_, rfl⟩ := read
    exact lookup_zip listed items
  | dateTime =>
    obtain rfl := Option.some.inj read
    rfl
  | _ => cases read

theorem nodup_filter_iff {fields : List (String × Value)} :
    ((fields.filter fun field => names.contains field.1).map Prod.fst).Nodup ↔
      ∀ name ∈ names, (fields.map Prod.fst).count name ≤ 1 := by
  have known : (fields.filter fun field => names.contains field.1).map Prod.fst =
      (fields.map Prod.fst).filter (names.contains ·) := by
    rw [List.filter_map]
    rfl
  rw [known, List.nodup_iff_count_le_one]
  constructor
  · intro once name listed
    have here := once name
    rwa [List.count_filter (List.contains_iff_mem.mpr listed)] at here
  · intro once name
    by_cases listed : name ∈ names
    · rw [List.count_filter (List.contains_iff_mem.mpr listed)]
      exact once name listed
    · rw [List.count_eq_zero.mpr (by simp [listed])]
      exact Nat.zero_le 1

theorem Fields.exists_ofValue?_iff : (∃ r, ofValue? .toml names v = some r) ↔ IsRecord names v := by
  constructor
  · rintro ⟨r, read⟩
    cases v with
    | object fields =>
      simp only [ofValue?, Option.ite_none_right_eq_some] at read
      exact .table (nodup_filter_iff.mp read.1)
    | array items => exact .array items
    | dateTime => exact .date
    | _ => cases read
  · rintro (once | items | _)
    · exact ⟨_, if_pos (nodup_filter_iff.mpr once)⟩
    · exact ⟨_, if_pos (.inr rfl)⟩
    · exact ⟨_, rfl⟩

theorem Fields.withDefault_eq_some {α : Type} {default a : α} {decode : Decoder α} :
    r.withDefault name default decode = some a ↔
      match r.get? name with
      | some v => decode v = some a
      | none => a = default := by
  unfold withDefault
  cases r.get? name with
  | none => exact Option.some_inj.trans eq_comm
  | some v => exact Iff.rfl

theorem isRecord_of_nodup {fields : List (String × Value)}
    (distinct : (fields.map Prod.fst).Nodup) :
    IsRecord names (.object fields) :=
  .table fun name _ => List.nodup_iff_count_le_one.mp distinct name

namespace Decoder

theorem bool_eq_some {b : Bool} : bool v = some b ↔ v = .bool b := by
  cases v <;> simp [bool]

theorem string_eq_some {text : String} : string v = some text ↔ v = .string text := by
  cases v <;> simp [string]

theorem natBelow_eq_some {bound n : Nat} :
    natBelow bound v = some n ↔ v = .integer n ∧ n < bound := by
  cases v with
  | integer k =>
    simp only [natBelow, Option.ite_none_right_eq_some, Option.some.injEq, Value.integer.injEq]
    omega
  | _ => simp [natBelow]

theorem nullable_string_eq_some {text? : Option String} : string.nullable v = some text? ↔
    v = .null ∧ text? = none ∨ ∃ text, text? = some text ∧ v = .string text := by
  by_cases null : v = .null
  · subst null
    simp [eq_comm]
  · rw [nullable_of_ne_null string null, Option.map_eq_some_iff]
    simp only [null, string_eq_some, false_and, false_or]
    exact exists_congr fun text => and_comm.trans (and_congr_left' eq_comm)

end Decoder

end Document

end TimingExplorer
