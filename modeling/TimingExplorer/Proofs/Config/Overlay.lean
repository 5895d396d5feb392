import Mathlib.Tactic.Choose
import TimingExplorer.Config
import TimingExplorer.Proofs.Document.Fields

/-!
The configuration that a TOML document writes: its fields laid over the defaults. A document can be
read just if what it has is of the right types, and then there is one such configuration.
-/
namespace TimingExplorer

open Document

theorem ConeDirection.decode_eq_some {v : Value} {way : ConeDirection} :
    ConeDirection.decode .toml v = some way ↔ v = .string way.name ∨
      ∃ unit, (unit = .array [] ∨ unit = .object []) ∧ v = .object [(way.name, unit)] := by
  have named (text : String) : choices.lookup text = some way ↔ text = way.name := by
    simp only [choices, List.lookup_cons, List.lookup_nil]
    cases way <;> grind [name]
  have bare (unit : Value) :
      tomlUnit unit = true ↔ unit = .array [] ∨ unit = .object [] := by
    unfold tomlUnit
    split <;> simp_all
  unfold decode Decoder.choice
  split
  · simp [named]
  · next text unit =>
    rw [Option.ite_none_right_eq_some, named]
    constructor
    · rintro ⟨isUnit, rfl⟩
      exact .inr ⟨unit, (bare unit).mp isUnit, rfl⟩
    · rintro (none | ⟨_, isUnit, same⟩)
      · cases none
      · cases same
        exact ⟨(bare unit).mpr isUnit, rfl⟩
  · next noText noTable =>
    constructor
    · intro none
      cases none
    · rintro (rfl | ⟨unit, _, rfl⟩)
      · exact absurd rfl (noText _)
      · exact absurd rfl (noTable _ _)

theorem AnalysisConfig.ofFields?_eq_some {r : Fields} {c : AnalysisConfig} :
    ofFields? r = some c ↔
      r.optional "corner" Decoder.string = some c.corner ∧
      r.withDefault "use_max" true Decoder.bool = some c.useMax ∧
      r.withDefault "max_path_count" 10 Decoder.count = some c.maxPathCount ∧
      r.withDefault "include_unconstrained" false Decoder.bool = some c.includeUnconstrained ∧
      r.withDefault "include_capture_paths" false Decoder.bool = some c.includeCapturePaths ∧
      r.withDefault "clock_expanded" false Decoder.bool = some c.clockExpanded := by
  simp only [ofFields?, Option.bind_eq_bind, Option.bind_eq_some_iff, Option.pure_def,
    Option.some.injEq]
  constructor
  · rintro ⟨_, corner, _, useMax, _, count, _, unconstrained, _, capture, _, expanded, rfl⟩
    exact ⟨corner, useMax, count, unconstrained, capture, expanded⟩
  · rintro ⟨corner, useMax, count, unconstrained, capture, expanded⟩
    exact ⟨_, corner, _, useMax, _, count, _, unconstrained, _, capture, _, expanded, rfl⟩

theorem ConeConfig.ofFields?_eq_some {r : Fields} {c : ConeConfig} :
    ofFields? .toml r = some c ↔
      r.withDefault "direction" .both (ConeDirection.decode .toml) = some c.direction := by
  simp only [ofFields?, Option.bind_eq_bind, Option.bind_eq_some_iff, Option.pure_def,
    Option.some.injEq]
  constructor
  · rintro ⟨_, direction, rfl⟩
    exact direction
  · intro direction
    exact ⟨_, direction, rfl⟩

theorem LoggingConfig.ofFields?_eq_some {r : Fields} {c : LoggingConfig} :
    ofFields? r = some c ↔
      r.withDefault "filter" "vantage=info" Decoder.string = some c.filter := by
  simp only [ofFields?, Option.bind_eq_bind, Option.bind_eq_some_iff, Option.pure_def,
    Option.some.injEq]
  constructor
  · rintro ⟨_, filter, rfl⟩
    exact filter
  · intro filter
    exact ⟨_, filter, rfl⟩

/-! ## Fields of a configuration -/

namespace Config

/-- The sections of a configuration. -/
inductive Part where
  | analysis
  | cone
  | logging
  deriving DecidableEq, Repr

/-- The fields of all sections. -/
inductive Field where
  | corner
  | useMax
  | maxPathCount
  | includeUnconstrained
  | includeCapturePaths
  | clockExpanded
  | direction
  | filter
  deriving DecidableEq, Repr

def Part.name : Part → String
  | analysis => "analysis"
  | cone => "cone"
  | logging => "logging"

def Part.fieldNames : Part → List String
  | analysis => AnalysisConfig.fieldNames
  | cone => ConeConfig.fieldNames
  | logging => LoggingConfig.fieldNames

namespace Field

def part : Field → Part
  | direction => .cone
  | filter => .logging
  | _ => .analysis

def name : Field → String
  | corner => "corner"
  | useMax => "use_max"
  | maxPathCount => "max_path_count"
  | includeUnconstrained => "include_unconstrained"
  | includeCapturePaths => "include_capture_paths"
  | clockExpanded => "clock_expanded"
  | direction => "direction"
  | filter => "filter"

/-- The type of a field. -/
def Content : Field → Type
  | corner => Option String
  | maxPathCount => Nat
  | direction => ConeDirection
  | filter => String
  | _ => Bool

/-- What a configuration has in a field. -/
def of : (f : Field) → Config → f.Content
  | corner, c => c.analysis.corner
  | useMax, c => c.analysis.useMax
  | maxPathCount, c => c.analysis.maxPathCount
  | includeUnconstrained, c => c.analysis.includeUnconstrained
  | includeCapturePaths, c => c.analysis.includeCapturePaths
  | clockExpanded, c => c.analysis.clockExpanded
  | direction, c => c.cone.direction
  | filter, c => c.logging.filter

/-- A value is of the type of a field and stands for this content. A direction is written as its
name, alone or as the one name in a table. Null, which TOML does not have, would be no corner. -/
def Writes : (f : Field) → Value → f.Content → Prop
  | corner, v, (corner? : Option String) =>
    v = .null ∧ corner? = none ∨ ∃ text, corner? = some text ∧ v = .string text
  | maxPathCount, v, (count : Nat) => v = .integer count ∧ count < 0x10000000000000000
  | direction, v, (way : ConeDirection) => v = .string way.name ∨
      ∃ unit, (unit = .array [] ∨ unit = .object []) ∧ v = .object [(way.name, unit)]
  | filter, v, (text : String) => v = .string text
  | useMax, v, (b : Bool) => v = .bool b
  | includeUnconstrained, v, (b : Bool) => v = .bool b
  | includeCapturePaths, v, (b : Bool) => v = .bool b
  | clockExpanded, v, (b : Bool) => v = .bool b

/-- What a configuration has in a field that is laid over its default. -/
def Laid (f : Field) (v? : Option Value) (a : f.Content) : Prop :=
  match v? with
  | some v => f.Writes v a
  | none => a = f.of {}

end Field

/-- The value that a document writes for a field. -/
def written? (v : Value) (f : Field) : Option Value :=
  (v.field? fieldNames f.part.name).bind (·.field? f.part.fieldNames f.name)

/-- A document and those sections that it has are records. -/
structure Shaped (v : Value) : Prop where
  root : IsRecord fieldNames v
  parts : ∀ (part : Part) w, v.field? fieldNames part.name = some w → IsRecord part.fieldNames w

/-- Every section and field that a document has is of its type. -/
structure WellTyped (v : Value) : Prop extends Shaped v where
  fields : ∀ f w, written? v f = some w → ∃ a, f.Writes w a

/-- The fields that a document has, laid over the defaults. -/
def LaidOver (v : Value) (c : Config) : Prop := ∀ f : Field, f.Laid (written? v f) (f.of c)

/-! ## Reading -/

variable {v : Value} {c c' : Config} {f : Field} {part : Part}

/-- The reader of a field. -/
def Field.decode : (f : Field) → Decoder f.Content
  | corner => Decoder.string.nullable
  | maxPathCount => Decoder.count
  | direction => ConeDirection.decode .toml
  | filter => Decoder.string
  | useMax => Decoder.bool
  | includeUnconstrained => Decoder.bool
  | includeCapturePaths => Decoder.bool
  | clockExpanded => Decoder.bool

theorem Field.decode_eq_some {a : f.Content} : f.decode v = some a ↔ f.Writes v a := by
  cases f with
  | corner => exact Decoder.nullable_string_eq_some
  | maxPathCount => exact Decoder.natBelow_eq_some
  | direction => exact ConeDirection.decode_eq_some
  | filter => exact Decoder.string_eq_some
  | useMax => exact Decoder.bool_eq_some
  | includeUnconstrained => exact Decoder.bool_eq_some
  | includeCapturePaths => exact Decoder.bool_eq_some
  | clockExpanded => exact Decoder.bool_eq_some

theorem Field.withDefault_eq_some {r : Fields} {a : f.Content} :
    r.withDefault f.name (f.of {}) f.decode = some a ↔ f.Laid (r.get? f.name) a := by
  rw [Fields.withDefault_eq_some]
  unfold Laid
  cases r.get? f.name with
  | none => exact Iff.rfl
  | some v => exact decode_eq_some

theorem Field.forall_iff {P : Field → Prop} : (∀ f, P f) ↔
    (P corner ∧ P useMax ∧ P maxPathCount ∧ P includeUnconstrained ∧ P includeCapturePaths ∧
      P clockExpanded) ∧ P direction ∧ P filter := by
  constructor
  · intro all
    exact ⟨⟨all _, all _, all _, all _, all _, all _⟩, all _, all _⟩
  · rintro ⟨⟨_, _, _, _, _, _⟩, _, _⟩ f
    cases f <;> assumption

theorem Part.forall_iff {P : Part → Prop} : (∀ part, P part) ↔ P analysis ∧ P cone ∧ P logging := by
  constructor
  · intro all
    exact ⟨all _, all _, all _⟩
  · rintro ⟨_, _, _⟩ part
    cases part <;> assumption

/-- A section is read as that of a configuration. -/
def Part.Reads : Part → Value → Config → Prop
  | analysis, v, c => AnalysisConfig.decode .toml v = some c.analysis
  | cone, v, c => ConeConfig.decode .toml v = some c.cone
  | logging, v, c => LoggingConfig.decode .toml v = some c.logging

/-- A section is read field by field. -/
theorem Part.reads_iff_exists : part.Reads v c ↔
    ∃ r, Fields.ofValue? .toml part.fieldNames v = some r ∧ ∀ f : Field,
      f.part = part → r.withDefault f.name (f.of {}) f.decode = some (f.of c) := by
  cases part with
  | analysis =>
    simp only [Reads, AnalysisConfig.decode, Option.bind_eq_some_iff,
      AnalysisConfig.ofFields?_eq_some, Field.forall_iff, Field.part, true_implies, reduceCtorEq,
      false_implies, and_true]
    exact Iff.rfl
  | cone =>
    simp only [Reads, ConeConfig.decode, Option.bind_eq_some_iff, ConeConfig.ofFields?_eq_some,
      Field.forall_iff, Field.part, true_implies, reduceCtorEq, false_implies, and_true, true_and]
    exact Iff.rfl
  | logging =>
    simp only [Reads, LoggingConfig.decode, Option.bind_eq_some_iff,
      LoggingConfig.ofFields?_eq_some, Field.forall_iff, Field.part, true_implies, reduceCtorEq,
      false_implies, true_and]
    exact Iff.rfl

theorem Field.name_mem (f : Field) : f.name ∈ f.part.fieldNames := by cases f <;> decide

theorem Part.name_mem (part : Part) : part.name ∈ Config.fieldNames := by cases part <;> decide

theorem Part.reads_iff : part.Reads v c ↔ IsRecord part.fieldNames v ∧
    ∀ f : Field, f.part = part → f.Laid (v.field? part.fieldNames f.name) (f.of c) := by
  rw [reads_iff_exists, ← Fields.exists_ofValue?_iff]
  -- Reading drops what is unknown, so the fields asked for are those of the value.
  have given {r : Fields} (read : Fields.ofValue? .toml part.fieldNames v = some r) {f : Field}
      (own : f.part = part) : r.get? f.name = v.field? part.fieldNames f.name :=
    Fields.get?_of_ofValue? read (own ▸ f.name_mem)
  constructor
  · rintro ⟨r, read, fields⟩
    refine ⟨⟨r, read⟩, fun f own => ?_⟩
    rw [← given read own, ← Field.withDefault_eq_some]
    exact fields f own
  · rintro ⟨⟨r, read⟩, laid⟩
    refine ⟨r, read, fun f own => ?_⟩
    rw [Field.withDefault_eq_some, given read own]
    exact laid f own

/-- A section has its defaults throughout. -/
def Part.IsDefault : Part → Config → Prop
  | analysis, c => c.analysis = {}
  | cone, c => c.cone = {}
  | logging, c => c.logging = {}

theorem Part.isDefault_iff : part.IsDefault c ↔ ∀ f : Field, f.part = part → f.of c = f.of {} := by
  obtain ⟨⟨_, _, _, _, _, _⟩, ⟨_⟩, ⟨_⟩⟩ := c
  rw [Field.forall_iff]
  cases part <;>
    simp only [IsDefault, Field.part, AnalysisConfig.mk.injEq, ConeConfig.mk.injEq,
      LoggingConfig.mk.injEq, true_implies, reduceCtorEq, false_implies, and_true, true_and] <;>
    exact Iff.rfl

/-- A section is read, or it is left out. -/
def Part.Given (part : Part) (v? : Option Value) (c : Config) : Prop :=
  match v? with
  | some v => part.Reads v c
  | none => part.IsDefault c

theorem Part.given_iff {v? : Option Value} : part.Given v? c ↔
    (∀ v, v? = some v → IsRecord part.fieldNames v) ∧
      ∀ f : Field, f.part = part → f.Laid (v?.bind (·.field? part.fieldNames f.name)) (f.of c) := by
  cases v? with
  | none => simp [Given, Part.isDefault_iff, Field.Laid]
  | some v => simp [Given, Part.reads_iff]

theorem ofFields?_eq_some {r : Fields} :
    ofFields? .toml r = some c ↔ ∀ part : Part, part.Given (r.get? part.name) c := by
  have analysis : r.withDefault "analysis" {} (AnalysisConfig.decode .toml) = some c.analysis ↔
      Part.analysis.Given (r.get? "analysis") c := Fields.withDefault_eq_some
  have cone : r.withDefault "cone" {} (ConeConfig.decode .toml) = some c.cone ↔
      Part.cone.Given (r.get? "cone") c := Fields.withDefault_eq_some
  have logging : r.withDefault "logging" {} (LoggingConfig.decode .toml) = some c.logging ↔
      Part.logging.Given (r.get? "logging") c := Fields.withDefault_eq_some
  simp only [ofFields?, Option.bind_eq_bind, Option.bind_eq_some_iff, Option.pure_def,
    Option.some.injEq, Part.forall_iff]
  constructor
  · rintro ⟨_, first, _, second, _, third, rfl⟩
    exact ⟨analysis.mp first, cone.mp second, logging.mp third⟩
  · rintro ⟨first, second, third⟩
    exact ⟨_, analysis.mpr first, _, cone.mpr second, _, logging.mpr third, rfl⟩

theorem decode_eq_some : decode .toml v = some c ↔ Shaped v ∧ LaidOver v c := by
  have given {r : Fields} (read : Fields.ofValue? .toml fieldNames v = some r) (part : Part) :
      r.get? part.name = v.field? fieldNames part.name :=
    Fields.get?_of_ofValue? read part.name_mem
  rw [decode, Option.bind_eq_some_iff]
  constructor
  · rintro ⟨r, read, parts⟩
    have parts (part : Part) := Part.given_iff.mp (ofFields?_eq_some.mp parts part)
    simp only [given read] at parts
    exact ⟨⟨Fields.exists_ofValue?_iff.mp ⟨r, read⟩, fun part => (parts part).1⟩,
      fun f => (parts f.part).2 f rfl⟩
  · rintro ⟨shaped, laid⟩
    obtain ⟨r, read⟩ := Fields.exists_ofValue?_iff.mpr shaped.root
    refine ⟨r, read, ofFields?_eq_some.mpr fun part => ?_⟩
    rw [Part.given_iff, given read]
    refine ⟨shaped.parts part, ?_⟩
    rintro f rfl
    exact laid f

/-- There is one, for both are what the document is read as. -/
theorem LaidOver.unique (shaped : Shaped v) (first : LaidOver v c) (second : LaidOver v c') :
    c = c' :=
  Option.some.inj ((decode_eq_some.mpr ⟨shaped, first⟩).symm.trans
    (decode_eq_some.mpr ⟨shaped, second⟩))

/-- The configuration with these contents. -/
def ofContents (contents : (f : Field) → f.Content) : Config where
  analysis :=
    { corner := contents .corner, useMax := contents .useMax
      maxPathCount := contents .maxPathCount
      includeUnconstrained := contents .includeUnconstrained
      includeCapturePaths := contents .includeCapturePaths
      clockExpanded := contents .clockExpanded }
  cone := { direction := contents .direction }
  logging := { filter := contents .filter }

theorem of_ofContents (contents : (f : Field) → f.Content) (f : Field) :
    f.of (ofContents contents) = contents f := by
  cases f <;> rfl

theorem WellTyped.exists_laidOver (typed : WellTyped v) : ∃ c, LaidOver v c := by
  have each (f : Field) : ∃ a, f.Laid (written? v f) a := by
    cases written : written? v f with
    | none => exact ⟨f.of {}, rfl⟩
    | some w => exact typed.fields f w written
  -- A configuration has its fields independently of each other.
  choose contents laid using each
  refine ⟨ofContents contents, fun f => ?_⟩
  rw [of_ofContents]
  exact laid f

theorem LaidOver.wellTyped (shaped : Shaped v) (laid : LaidOver v c) : WellTyped v := by
  refine ⟨shaped, fun f w written => ⟨f.of c, ?_⟩⟩
  have here := laid f
  rwa [written] at here

theorem decode_eq_none : decode .toml v = none ↔ ¬ WellTyped v := by
  rw [Option.eq_none_iff_forall_ne_some]
  constructor
  · intro refused typed
    obtain ⟨c, laid⟩ := typed.exists_laidOver
    exact refused c (decode_eq_some.mpr ⟨typed.toShaped, laid⟩)
  · intro bad c read
    obtain ⟨shaped, laid⟩ := decode_eq_some.mp read
    exact bad (laid.wellTyped shaped)

end Config

end TimingExplorer
