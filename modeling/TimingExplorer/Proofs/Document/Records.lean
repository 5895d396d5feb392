import Mathlib.Data.List.Nodup
import Mathlib.Logic.Relation
import TimingExplorer.Document.Decode
import TimingExplorer.Document.Encode

/-!
Records as documents: a written record is read back, also with fields left out that hold their
default. Fields are left out one at a time; each time the reader keeps what it read before.
-/

namespace TimingExplorer.Document

variable {α β : Type}

/-! Reading back. -/

namespace Decoder

theorem list_encode {decode : Decoder α} {encode : α → Value} {items : List α}
    (each : ∀ a ∈ items, decode (encode a) = some a) :
    list decode (Encode.list encode items) = some items := by
  change (items.map encode).mapM decode = some items
  rw [List.mapM_map]
  induction items with
  | nil => rfl
  | cons a rest ih =>
    obtain ⟨first, others⟩ := List.forall_mem_cons.mp each
    rw [List.mapM_cons, Function.comp_apply, first, ih others]
    rfl

theorem nullable_of_ne_null (decode : Decoder α) {v : Value} (notNull : v ≠ .null) :
    nullable decode v = (decode v).map some := by
  cases v <;> first | rfl | exact absurd rfl notNull

/-- A reader that refuses null tells a value from its absence. -/
theorem nullable_encode {decode : Decoder α} {encode : α → Value} {a? : Option α}
    (refuses : decode .null = none) (each : ∀ a ∈ a?, decode (encode a) = some a) :
    nullable decode (Encode.nullable encode a?) = some a? := by
  cases a? with
  | none => rfl
  | some a =>
    have back := each a rfl
    have notNull : encode a ≠ .null := by
      intro isNull
      rw [isNull, refuses] at back
      cases back
    rw [Encode.nullable, nullable_of_ne_null decode notNull, back, Option.map_some]

theorem real_encode {x : Double} (finite : x.isFinite = true) :
    real (Encode.real x) = some x := by
  rw [Encode.real, if_pos finite]
  simp [real, finite]

@[simp] theorem string_string (text : String) : string (.string text) = some text := rfl

@[simp] theorem bool_bool (b : Bool) : bool (.bool b) = some b := rfl

@[simp] theorem real_zero : real (.real 0) = some 0 := rfl

@[simp] theorem list_nil (decode : Decoder α) : list decode (.array []) = some [] := rfl

@[simp] theorem nullable_null (decode : Decoder α) : nullable decode .null = some none := rfl

theorem int64_integer {n : Int} (low : -0x8000000000000000 ≤ n) (high : n < 0x8000000000000000) :
    int64 (.integer n) = some n := by
  rw [int64, integer, if_pos ⟨low, by omega⟩]

end Decoder

namespace Fields

/-- An object with just the fields of a record gives all of them. -/
theorem ofValue?_object {dialect : Dialect} {fields : List (String × Value)}
    (distinct : (fields.map Prod.fst).Nodup) :
    ofValue? dialect (fields.map Prod.fst) (.object fields) = some ⟨fields⟩ := by
  have known : (fields.filter fun field => (fields.map Prod.fst).contains field.1) = fields := by
    rw [List.filter_eq_self]
    intro field member
    exact List.contains_iff_mem.mpr (List.mem_map_of_mem member)
  rw [ofValue?, known, if_pos distinct]

theorem get?_cons (name : String) (v : Value) (fields : List (String × Value)) (other : String) :
    get? ⟨(name, v) :: fields⟩ other = if other = name then some v else get? ⟨fields⟩ other := by
  rw [get?, List.lookup_cons]
  split
  · next same => rw [if_pos (eq_of_beq same)]
  · next different => rw [if_neg (beq_eq_false_iff_ne.mp different), get?]

variable (name : String) (v : Value) (fields : List (String × Value)) (other : String)
  (decode : Decoder α)

@[simp] theorem required_cons :
    required ⟨(name, v) :: fields⟩ other decode =
      if other = name then decode v else required ⟨fields⟩ other decode := by
  rw [required, get?_cons]
  split <;> rfl

@[simp] theorem withDefault_cons (default : α) :
    withDefault ⟨(name, v) :: fields⟩ other default decode =
      if other = name then decode v else withDefault ⟨fields⟩ other default decode := by
  by_cases same : other = name <;> simp [withDefault, get?_cons, same]

@[simp] theorem optional_cons :
    optional ⟨(name, v) :: fields⟩ other decode =
      if other = name then decode.nullable v else optional ⟨fields⟩ other decode := by
  rw [optional, withDefault_cons, optional]

end Fields

theorem Decoder.record_encode (names : List String) {fields : List (String × Value)}
    {ofFields? : Fields → Option α} (distinct : names.Nodup) (named : fields.map Prod.fst = names) :
    (Fields.ofValue? .json names (.object fields)).bind ofFields? = ofFields? ⟨fields⟩ := by
  rw [← named] at distinct ⊢
  rw [Fields.ofValue?_object distinct, Option.bind_some]

/-! Leaving out. -/

/-- What may be left out of a written value: from a record the fields that have a default, and from
its fields what their own outlines allow. -/
inductive Outline where
  | list (item : Outline)
  | record (defaults : List (String × Value)) (inner : List (String × Outline))

/-- One field, at any depth, is left out where it holds its default. -/
inductive Omits : Outline → Value → Value → Prop
  | field {defaults : List (String × Value)} {inner : List (String × Outline)} {name : String}
      {default : Value} (before after : List (String × Value))
      (listed : (name, default) ∈ defaults) :
      Omits (.record defaults inner) (.object (before ++ (name, default) :: after))
        (.object (before ++ after))
  | inside {defaults : List (String × Value)} {inner : List (String × Outline)} {name : String}
      {outline : Outline} {v w : Value} (before after : List (String × Value))
      (listed : (name, outline) ∈ inner) (omits : Omits outline v w) :
      Omits (.record defaults inner) (.object (before ++ (name, v) :: after))
        (.object (before ++ (name, w) :: after))
  | item {outline : Outline} {v w : Value} (before after : List Value)
      (omits : Omits outline v w) :
      Omits (.list outline) (.array (before ++ v :: after)) (.array (before ++ w :: after))

/-- Any number of fields is left out. -/
def Abridges (outline : Outline) : Value → Value → Prop := Relation.ReflTransGen (Omits outline)

/-- What was read is kept. -/
def Keeps (x x' : Option α) : Prop := ∀ a, x = some a → x' = some a

theorem Keeps.refl (x : Option α) : Keeps x x := fun _ read => read

theorem Keeps.bind {x x' : Option α} {f g : α → Option β} (first : Keeps x x')
    (rest : ∀ a, Keeps (f a) (g a)) : Keeps (x >>= f) (x' >>= g) := by
  intro b read
  obtain ⟨a, readFirst, readRest⟩ := Option.bind_eq_some_iff.mp read
  exact Option.bind_eq_some_iff.mpr ⟨a, first a readFirst, rest a b readRest⟩

/-- What is read of a value is kept where a field is left out of it. -/
def Decoder.Tolerates (decode : Decoder α) (outline : Outline) : Prop :=
  ∀ v w, Omits outline v w → Keeps (decode v) (decode w)

theorem Decoder.Tolerates.abridged {decode : Decoder α} {outline : Outline}
    (tolerates : decode.Tolerates outline) {v w : Value} (abridges : Abridges outline v w) :
    Keeps (decode v) (decode w) := by
  induction abridges with
  | refl => exact .refl _
  | tail _ omits ih => exact fun a read => tolerates _ _ omits a (ih a read)

theorem Decoder.Tolerates.list {decode : Decoder α} {outline : Outline}
    (tolerates : decode.Tolerates outline) : (Decoder.list decode).Tolerates (.list outline) := by
  intro v w omits
  cases omits with
  | item before after omits =>
    simp only [Decoder.list, List.mapM_append, List.mapM_cons]
    exact (Keeps.refl _).bind fun _ =>
      ((tolerates _ _ omits).bind fun _ => .refl _).bind fun _ => .refl _

theorem Decoder.Tolerates.nullable {decode : Decoder α} {outline : Outline}
    (tolerates : decode.Tolerates outline) : (Decoder.nullable decode).Tolerates outline := by
  intro v w omits
  have notNull : v ≠ .null ∧ w ≠ .null := by cases omits <;> simp
  rw [nullable_of_ne_null decode notNull.1, nullable_of_ne_null decode notNull.2]
  intro a read
  obtain ⟨b, readItem, rfl⟩ := Option.map_eq_some_iff.mp read
  rw [tolerates v w omits b readItem, Option.map_some]

namespace Fields

variable {defaults : List (String × Value)} {inner : List (String × Outline)}

/-- What an omission does to the field of a name. -/
inductive FieldOmits (defaults : List (String × Value)) (inner : List (String × Outline))
    (name : String) : Option Value → Option Value → Prop
  | same (v? : Option Value) : FieldOmits defaults inner name v? v?
  | field {default : Value} (listed : (name, default) ∈ defaults) :
      FieldOmits defaults inner name (some default) none
  | inside {outline : Outline} {v w : Value} (listed : (name, outline) ∈ inner)
      (omits : Omits outline v w) : FieldOmits defaults inner name (some v) (some w)

/-- What an omission does to the fields of a record. -/
def Omits (defaults : List (String × Value)) (inner : List (String × Outline)) (r r' : Fields) :
    Prop :=
  ∀ name, FieldOmits defaults inner name (r.get? name) (r'.get? name)

theorem lookup_eq_none {fields : List (String × Value)} {name : String}
    (unnamed : name ∉ fields.map Prod.fst) : fields.lookup name = none := by
  rw [List.lookup_eq_none_iff]
  intro field member
  have other : name ≠ field.1 := fun same => unnamed (same ▸ List.mem_map_of_mem member)
  simpa using other

theorem nodup_middle_iff {before after : List (String × Value)} {name : String} {v : Value} :
    ((before ++ (name, v) :: after).map Prod.fst).Nodup ↔
      (name ∉ before.map Prod.fst ∧ name ∉ after.map Prod.fst) ∧
        ((before ++ after).map Prod.fst).Nodup := by
  rw [List.map_append, List.map_cons, List.nodup_middle, List.nodup_cons, List.mem_append, not_or,
    ← List.map_append]

/-- The values by name where one field stands in the middle, or none. -/
theorem lookup_middle {before after : List (String × Value)} {name : String}
    (first : name ∉ before.map Prod.fst) (last : name ∉ after.map Prod.fst) (w? : Option Value)
    (other : String) :
    (before ++ ((w?.map (name, ·)).toList ++ after)).lookup other =
      if other = name then w? else (before ++ after).lookup other := by
  rw [List.lookup_append, List.lookup_append, List.lookup_append]
  split
  · next same =>
    rw [same, lookup_eq_none first, lookup_eq_none last]
    cases w? <;> simp
  · next different =>
    cases w? <;> simp [List.lookup_cons, beq_eq_false_iff_ne.mpr different]

/-- Where the field in the middle of an object changes, so do the fields of the record; a name that
the record does not know makes no difference to it. -/
theorem omits_of_middle {dialect : Dialect} {names : List String} {name : String} {v : Value}
    {before after : List (String × Value)} {r : Fields}
    (opened : ofValue? dialect names (.object (before ++ (name, v) :: after)) = some r)
    {w? : Option Value} (change : FieldOmits defaults inner name (some v) w?) :
    ∃ r', ofValue? dialect names (.object (before ++ ((w?.map (name, ·)).toList ++ after))) =
        some r' ∧ Omits defaults inner r r' := by
  have middle : (w?.map (name, ·)).toList.filter (fun field => names.contains field.1) =
      if names.contains name then (w?.map (name, ·)).toList else [] := by
    cases w? <;> simp [List.filter_singleton]
  simp only [ofValue?, List.filter_append, List.filter_cons, middle] at opened ⊢
  generalize before.filter (fun field => names.contains field.1) = before at opened ⊢
  generalize after.filter (fun field => names.contains field.1) = after at opened ⊢
  by_cases known : names.contains name = true
  · simp only [known, if_true] at opened ⊢
    split at opened
    · next distinct =>
      cases opened
      obtain ⟨⟨first, last⟩, others⟩ := nodup_middle_iff.mp distinct
      have distinct' : ((before ++ ((w?.map (name, ·)).toList ++ after)).map Prod.fst).Nodup := by
        cases w? with
        | none => exact others
        | some w => exact nodup_middle_iff.mpr ⟨⟨first, last⟩, others⟩
      refine ⟨_, if_pos distinct', fun other => ?_⟩
      have old := lookup_middle first last (some v) other
      have new := lookup_middle first last w? other
      rw [Option.map_some, Option.toList_some, List.singleton_append] at old
      rw [get?, get?, old, new]
      split
      · next same => exact same ▸ change
      · exact .same _
    · cases opened
  · simp only [known, if_false, Bool.false_eq_true, List.nil_append] at opened ⊢
    exact ⟨r, opened, fun _ => .same _⟩

theorem omits_of_ofValue? {dialect : Dialect} {names : List String} {v w : Value} {r : Fields}
    (omits : Document.Omits (.record defaults inner) v w)
    (opened : ofValue? dialect names v = some r) :
    ∃ r', ofValue? dialect names w = some r' ∧ Omits defaults inner r r' := by
  cases omits with
  | field before after listed => exact omits_of_middle opened (.field listed)
  | inside before after listed omits => exact omits_of_middle opened (.inside listed omits)

variable {r r' : Fields} (omits : Omits defaults inner r r') (name : String)
include omits

/-- A field without a default is not left out. -/
theorem Omits.required {decode : Decoder α} (needed : ∀ default, (name, default) ∉ defaults)
    (inside : ∀ outline, (name, outline) ∈ inner → decode.Tolerates outline) :
    Keeps (r.required name decode) (r'.required name decode) := by
  have field := omits name
  unfold Fields.required
  generalize r.get? name = v? at field
  generalize r'.get? name = w? at field
  cases field with
  | same => exact .refl _
  | field listed => exact absurd listed (needed _)
  | inside listed omits => exact inside _ listed _ _ omits

theorem Omits.withDefault {decode : Decoder α} {default : α}
    (holds : ∀ written, (name, written) ∈ defaults → decode written = some default)
    (inside : ∀ outline, (name, outline) ∈ inner → decode.Tolerates outline) :
    Keeps (r.withDefault name default decode) (r'.withDefault name default decode) := by
  have field := omits name
  unfold Fields.withDefault
  generalize r.get? name = v? at field
  generalize r'.get? name = w? at field
  cases field with
  | same => exact .refl _
  | field listed =>
    intro a read
    exact (holds _ listed).symm.trans read
  | inside listed omits => exact inside _ listed _ _ omits

end Fields

theorem Decoder.tolerates_record {defaults : List (String × Value)}
    {inner : List (String × Outline)} {names : List String} {ofFields? : Fields → Option α}
    (keeps : ∀ r r', Fields.Omits defaults inner r r' → Keeps (ofFields? r) (ofFields? r')) :
    Decoder.Tolerates (fun v => (Fields.ofValue? .json names v).bind ofFields?)
      (.record defaults inner) := by
  intro v w omits a read
  obtain ⟨r, opened, readFields⟩ := Option.bind_eq_some_iff.mp read
  obtain ⟨r', opened', fields⟩ := Fields.omits_of_ofValue? omits opened
  exact Option.bind_eq_some_iff.mpr ⟨r', opened', keeps r r' fields a readFields⟩

end TimingExplorer.Document
