import TimingExplorer.Config.Load
import TimingExplorer.Proofs.Config.Overlay
import TimingExplorer.Proofs.Failure

/-!
Loading a configuration. What a document writes is laid over the defaults, and the rules are checked
on the result. So a document loads as a valid configuration if it writes, of its fields, at least
those in which it is not the default.
-/
namespace TimingExplorer

open Document

namespace Text

/-- The code points with the Unicode property White_Space. -/
def whiteSpace : List Nat :=
  [0x9, 0xa, 0xb, 0xc, 0xd, 0x20, 0x85, 0xa0, 0x1680, 0x2000, 0x2001, 0x2002, 0x2003, 0x2004,
    0x2005, 0x2006, 0x2007, 0x2008, 0x2009, 0x200a, 0x2028, 0x2029, 0x202f, 0x205f, 0x3000]

theorem isSpace_iff {letter : Char} : isSpace letter = true ↔ letter.toNat ∈ whiteSpace := by
  simp only [isSpace, whiteSpace, Bool.or_eq_true, Bool.and_eq_true, decide_eq_true_eq, beq_iff_eq,
    List.mem_cons, List.not_mem_nil, or_false]
  omega

theorem isBlank_iff {text : String} :
    isBlank text = true ↔ ∀ letter ∈ text.toList, letter.toNat ∈ whiteSpace := by
  simp only [isBlank, List.all_eq_true, isSpace_iff]

end Text

/-- The values that TOML has. There is no null, and a whole number has a sign and 63 bits. -/
inductive Toml.Holds : Value → Prop where
  | bool (b : Bool) : Holds (.bool b)
  | integer {n : Int} (low : -0x8000000000000000 ≤ n) (high : n < 0x8000000000000000) :
    Holds (.integer n)
  | real (x : Double) : Holds (.real x)
  | string (text : String) : Holds (.string text)
  | dateTime : Holds .dateTime
  | array {items : List Value} (each : ∀ item ∈ items, Holds item) : Holds (.array items)
  | object {fields : List (String × Value)} (each : ∀ field ∈ fields, Holds field.2) :
    Holds (.object fields)

theorem Toml.not_holds_null : ¬ Holds .null := by
  intro held
  cases held

theorem Toml.holds_integer_iff {n : Int} :
    Holds (.integer n) ↔ -0x8000000000000000 ≤ n ∧ n < 0x8000000000000000 := by
  constructor
  · intro held
    cases held with
    | integer low high => exact ⟨low, high⟩
  · rintro ⟨low, high⟩
    exact .integer low high

theorem Toml.holds_object_iff {fields : List (String × Value)} :
    Holds (.object fields) ↔ ∀ field ∈ fields, Holds field.2 := by
  constructor
  · intro held
    cases held with
    | object each => exact each
  · exact .object

namespace Config

variable {v : Value} {c c' : Config} {fault : ConfigFault}

/-! ## Checking -/

/-- There are paths to report, and the names that are given can be seen. -/
structure Valid (c : Config) : Prop where
  paths : 0 < c.analysis.maxPathCount
  corner : ∀ name ∈ c.analysis.corner, ∃ letter ∈ name.toList, letter.toNat ∉ Text.whiteSpace
  filter : ∃ letter ∈ c.logging.filter.toList, letter.toNat ∉ Text.whiteSpace

/-- What it is to break a rule. -/
def Breaks (c : Config) : ConfigFault → Prop
  | .noPaths => c.analysis.maxPathCount = 0
  | .blankCorner =>
    ∃ name ∈ c.analysis.corner, ∀ letter ∈ name.toList, letter.toNat ∈ Text.whiteSpace
  | .blankFilter => ∀ letter ∈ c.logging.filter.toList, letter.toNat ∈ Text.whiteSpace

/-- The first rule that is broken, in the order of path count, corner and filter. -/
def FirstBroken (c : Config) : ConfigFault → Prop :=
  FirstFailure (fun rule fault => c.Breaks rule ∧ fault = rule)
    [.noPaths, .blankCorner, .blankFilter]

theorem firstBroken_iff : c.FirstBroken fault ↔ c.fault? = some fault := by
  have blankCorner : c.analysis.corner.any Text.isBlank = true ↔ c.Breaks .blankCorner := by
    simp [Breaks, Text.isBlank_iff, Option.any_eq_true]
  have blankFilter : Text.isBlank c.logging.filter = true ↔ c.Breaks .blankFilter :=
    Text.isBlank_iff
  simp only [FirstBroken, firstFailure_cons, not_firstFailure_nil, and_false, or_false]
  unfold fault?
  split
  · next none =>
    have broken : c.Breaks .noPaths := none
    simp [broken, eq_comm]
  · next some =>
    have kept : ¬ c.Breaks .noPaths := some
    split
    · next blank => simp [kept, blankCorner.mp blank, eq_comm]
    · next seen =>
      have kept' := mt blankCorner.mpr seen
      split
      · next blank => simp [kept, kept', blankFilter.mp blank, eq_comm]
      · next seen' => simp [kept, kept', mt blankFilter.mpr seen']

theorem valid_iff : c.Valid ↔ ∀ rule, ¬ c.Breaks rule := by
  constructor
  · rintro ⟨paths, corner, filter⟩ rule broken
    cases rule with
    | noPaths => exact absurd broken (Nat.pos_iff_ne_zero.mp paths)
    | blankCorner =>
      obtain ⟨name, named, blank⟩ := broken
      obtain ⟨letter, member, seen⟩ := corner name named
      exact seen (blank letter member)
    | blankFilter =>
      obtain ⟨letter, member, seen⟩ := filter
      exact seen (broken letter member)
  · intro kept
    refine ⟨Nat.pos_of_ne_zero (kept .noPaths), fun name named => ?_, ?_⟩
    · have seen := kept .blankCorner
      simp only [Breaks, not_exists, not_and, not_forall, exists_prop] at seen
      exact seen name named
    · simpa only [Breaks, not_forall, exists_prop] using kept .blankFilter

theorem fault?_eq_none : c.fault? = none ↔ c.Valid := by
  rw [valid_iff, Option.eq_none_iff_forall_ne_some]
  simp only [ne_eq, ← firstBroken_iff]
  rw [← not_exists, FirstBroken, exists_firstFailure_iff, ← not_exists, not_congr]
  constructor
  · rintro ⟨rule, _, _, broken, _⟩
    exact ⟨rule, broken⟩
  · rintro ⟨rule, broken⟩
    exact ⟨rule, by cases rule <;> simp, rule, broken, rfl⟩

/-! ## Listing -/

/-- A document lists these fields of a configuration and no others. -/
structure Lists (v : Value) (c : Config) (listed : Field → Bool) : Prop extends Shaped v where
  present : ∀ f, (written? v f).isSome = listed f
  writes : ∀ (f : Field) w, written? v f = some w → f.Writes w (f.of c)

namespace Field

def encode : (f : Field) → f.Content → Value
  | corner, (corner? : Option String) => Encode.nullable .string corner?
  | maxPathCount, (count : Nat) => Encode.nat count
  | direction, (way : ConeDirection) => way.encode
  | filter, (text : String) => .string text
  | useMax, (b : Bool) => .bool b
  | includeUnconstrained, (b : Bool) => .bool b
  | includeCapturePaths, (b : Bool) => .bool b
  | clockExpanded, (b : Bool) => .bool b

def all : List Field :=
  [corner, useMax, maxPathCount, includeUnconstrained, includeCapturePaths, clockExpanded,
    direction, filter]

theorem name_injective : Function.Injective name := by
  intro f g
  cases f <;> cases g <;> decide

theorem mem_all (f : Field) : f ∈ all := by cases f <;> decide

theorem nodup_all : all.Nodup := by decide

theorem writes_encode (small : c.analysis.maxPathCount < 0x10000000000000000) (f : Field) :
    f.Writes (f.encode (f.of c)) (f.of c) := by
  cases f with
  | corner =>
    show corner.Writes (Encode.nullable .string c.analysis.corner) c.analysis.corner
    cases c.analysis.corner with
    | none => exact .inl ⟨rfl, rfl⟩
    | some text => exact .inr ⟨text, rfl, rfl⟩
  | maxPathCount => exact ⟨rfl, small⟩
  | direction => exact .inl rfl
  | filter => rfl
  | useMax => rfl
  | includeUnconstrained => rfl
  | includeCapturePaths => rfl
  | clockExpanded => rfl

end Field

namespace Part

def all : List Part := [analysis, cone, logging]

theorem name_injective : Function.Injective name := by
  intro part other
  cases part <;> cases other <;> decide

theorem mem_all (part : Part) : part ∈ all := by cases part <;> decide

end Part

/-- The table for a section with those of its fields that are listed. -/
def Part.table (part : Part) (c : Config) (listed : Field → Bool) : Value :=
  .object ((Field.all.filter fun f => f.part = part && listed f).map fun f =>
    (f.name, f.encode (f.of c)))

/-- The document that lists these fields of a configuration. -/
def document (c : Config) (listed : Field → Bool) : Value :=
  .object (Part.all.map fun part => (part.name, part.table c listed))

variable {listed : Field → Bool}

theorem Part.field?_table (f : Field) :
    (f.part.table c listed).field? f.part.fieldNames f.name =
      if listed f then some (f.encode (f.of c)) else none := by
  have member : f ∈ Field.all.filter (fun g => g.part = f.part && listed g) ↔ listed f = true := by
    simp [f.mem_all]
  have found := lookup_map Field.name_injective (fun f => f.encode (f.of c))
    (Field.all.filter fun g => g.part = f.part && listed g) f
  simp only [member] at found
  exact found

theorem Part.field?_document (part : Part) :
    (document c listed).field? Config.fieldNames part.name = some (part.table c listed) := by
  have found := lookup_map Part.name_injective (·.table c listed) Part.all part
  rwa [if_pos part.mem_all] at found

theorem written?_document (f : Field) :
    written? (document c listed) f = if listed f then some (f.encode (f.of c)) else none := by
  rw [written?, Part.field?_document, Option.bind_some, Part.field?_table]

theorem lists_document (small : c.analysis.maxPathCount < 0x10000000000000000)
    (listed : Field → Bool) : Lists (document c listed) c listed := by
  refine ⟨⟨?_, ?_⟩, ?_, ?_⟩
  · apply isRecord_of_nodup
    rw [List.map_map]
    show (Part.all.map Part.name).Nodup
    decide
  · intro part w found
    obtain rfl := Option.some.inj ((Part.field?_document part).symm.trans found)
    apply isRecord_of_nodup
    rw [List.map_map]
    exact (Field.nodup_all.filter _).map Field.name_injective
  · intro f
    rw [written?_document]
    cases listed f <;> rfl
  · intro f w written
    rw [written?_document, Option.ite_none_right_eq_some] at written
    obtain rfl := Option.some.inj written.2
    exact f.writes_encode small

theorem holds_document_iff : Toml.Holds (document c listed) ↔
    ∀ f : Field, listed f = true → Toml.Holds (f.encode (f.of c)) := by
  simp only [document, Part.table, Toml.holds_object_iff, List.forall_mem_map, List.mem_filter,
    Bool.and_eq_true, decide_eq_true_eq]
  constructor
  · intro held f given
    exact held f.part f.part.mem_all f ⟨f.mem_all, rfl, given⟩
  · intro held part _ f here
    exact held f here.2.2

theorem Field.holds_encode_iff {f : Field} : Toml.Holds (f.encode (f.of c)) ↔
    (f = maxPathCount → c.analysis.maxPathCount < 0x8000000000000000) ∧
      (f = corner → c.analysis.corner ≠ none) := by
  cases f with
  | corner =>
    show Toml.Holds (Encode.nullable .string c.analysis.corner) ↔ _
    cases c.analysis.corner with
    | none => simp [Encode.nullable, Toml.not_holds_null]
    | some name => simpa [Encode.nullable] using Toml.Holds.string name
  | maxPathCount =>
    show Toml.Holds (.integer c.analysis.maxPathCount) ↔ _
    rw [Toml.holds_integer_iff]
    simp only [true_implies, reduceCtorEq, false_implies, and_true]
    omega
  | direction | filter =>
    simp only [reduceCtorEq, false_implies, and_self, iff_true]
    exact .string _
  | useMax | includeUnconstrained | includeCapturePaths | clockExpanded =>
    simp only [reduceCtorEq, false_implies, and_self, iff_true]
    exact .bool _

/-- An unset corner cannot be listed, nor a count beyond the whole numbers of TOML. -/
theorem holds_document_iff_of_complete
    (complete : ∀ f : Field, f.of c ≠ f.of {} → listed f = true) :
    Toml.Holds (document c listed) ↔ c.analysis.maxPathCount < 0x8000000000000000 ∧
      (listed .corner = true → c.analysis.corner ≠ none) := by
  simp only [holds_document_iff, Field.holds_encode_iff]
  constructor
  · refine fun held => ⟨?_, fun given => (held .corner given).2 rfl⟩
    by_cases default : c.analysis.maxPathCount = 10
    · omega
    · exact (held .maxPathCount (complete .maxPathCount default)).1 rfl
  · rintro ⟨small, set⟩ f given
    refine ⟨fun _ => small, ?_⟩
    rintro rfl
    exact set given

/-- Where a document lists all that is not the default, the listed fields laid over the defaults
give the configuration. -/
theorem Lists.laidOver (lists : Lists v c listed)
    (complete : ∀ f : Field, f.of c ≠ f.of {} → listed f = true) : LaidOver v c := by
  intro f
  cases written : written? v f with
  | some w => exact lists.writes f w written
  | none =>
    have absent : listed f = false := by
      rw [← lists.present, written]
      rfl
    show f.of c = f.of {}
    -- A field that is not the default would be listed.
    by_contra differs
    rw [complete f differs] at absent
    cases absent

/-! ## Loading -/

theorem validate_eq_ok : c.validate = .ok c' ↔ c = c' ∧ c.Valid := by
  unfold validate
  rw [← fault?_eq_none]
  cases c.fault? <;> simp

theorem validate_eq_error {e : ConfigError} :
    c.validate = .error e ↔ ∃ fault, c.FirstBroken fault ∧ e = .invalid fault := by
  unfold validate
  simp only [firstBroken_iff]
  cases c.fault? <;> simp [eq_comm]

theorem ofDocument_eq_ok : ofDocument v = .ok c ↔ WellTyped v ∧ LaidOver v c ∧ c.Valid := by
  unfold ofDocument
  split
  · next refused =>
    have bad := decode_eq_none.mp refused
    simp [bad]
  · next read =>
    obtain ⟨shaped, laid⟩ := decode_eq_some.mp read
    rw [validate_eq_ok]
    constructor
    · rintro ⟨rfl, valid⟩
      exact ⟨laid.wellTyped shaped, laid, valid⟩
    · rintro ⟨_, laid', valid⟩
      obtain rfl := laid.unique shaped laid'
      exact ⟨rfl, valid⟩

theorem ofDocument_eq_malformed : ofDocument v = .error .malformed ↔ ¬ WellTyped v := by
  rw [← decode_eq_none]
  unfold ofDocument
  split
  · next refused => simp [refused]
  · next read => simp [read, validate_eq_error]

theorem ofDocument_eq_invalid : ofDocument v = .error (.invalid fault) ↔
    ∃ c, WellTyped v ∧ LaidOver v c ∧ c.FirstBroken fault := by
  unfold ofDocument
  split
  · next refused =>
    have bad := decode_eq_none.mp refused
    simp [bad]
  · next read =>
    obtain ⟨shaped, laid⟩ := decode_eq_some.mp read
    rw [validate_eq_error]
    constructor
    · rintro ⟨fault, broken, same⟩
      obtain rfl := ConfigError.invalid.inj same
      exact ⟨_, laid.wellTyped shaped, laid, broken⟩
    · rintro ⟨_, _, laid', broken⟩
      obtain rfl := laid.unique shaped laid'
      exact ⟨fault, broken, rfl⟩

/-- How a document loads. It loads as the defaults with its fields laid over them, if every section
and field that it has is of its type and this configuration breaks no rule. What is of a wrong type
is found out first, then the first rule that is broken. So each valid configuration is loaded from
the document that lists any fields of it, as long as it lists those that are not the default. That
is a document of TOML just if it lists no corner that is not set and no count from 2^63 on. -/
theorem ofDocument_lays :
    (∀ text v, Toml.read? text = some v → ofText text = ofDocument v) ∧
      (∀ v, (∀ c, ofDocument v = .ok c ↔ WellTyped v ∧ LaidOver v c ∧ c.Valid) ∧
        (ofDocument v = .error .malformed ↔ ¬ WellTyped v) ∧
        (∀ fault, ofDocument v = .error (.invalid fault) ↔
          ∃ c, WellTyped v ∧ LaidOver v c ∧ c.FirstBroken fault) ∧
        (WellTyped v → ∃! c, LaidOver v c)) ∧
      ∀ (c : Config) (listed : Field → Bool),
        c.Valid → c.analysis.maxPathCount < 0x10000000000000000 →
        (∀ f : Field, f.of c ≠ f.of {} → listed f = true) →
        Lists (document c listed) c listed ∧
        (Toml.Holds (document c listed) ↔ c.analysis.maxPathCount < 0x8000000000000000 ∧
          (listed .corner = true → c.analysis.corner ≠ none)) ∧
        ∀ v, Lists v c listed → ofDocument v = .ok c := by
  refine ⟨?_, ?_, ?_⟩
  · intro text v parsed
    rw [ofText, parsed]
  · intro v
    refine ⟨fun c => ofDocument_eq_ok, ofDocument_eq_malformed,
      fun fault => ofDocument_eq_invalid, ?_⟩
    intro typed
    obtain ⟨c, laid⟩ := typed.exists_laidOver
    exact ⟨c, laid, fun c' laid' => laid'.unique typed.toShaped laid⟩
  · intro c listed valid small complete
    refine ⟨lists_document small listed, holds_document_iff_of_complete complete,
      fun v lists => ?_⟩
    have laid := lists.laidOver complete
    exact ofDocument_eq_ok.mpr ⟨laid.wellTyped lists.toShaped, laid, valid⟩

def moreDetail : Config where
  analysis := { maxPathCount := 25 }
  logging := { filter := "debug" }

def moreDetailText : String :=
  "[analysis]\nuse_max = true\nmax_path_count = 25\n[logging]\nfilter = 'debug'\n"

/-- What the text lists, one field with its default. -/
def inMoreDetail (f : Field) : Bool := f = .useMax || f = .maxPathCount || f = .filter

theorem ofDocument_lays_moreDetail : ∃ v, Toml.read? moreDetailText = some v ∧
    ofDocument v = .ok moreDetail ∧ Toml.Holds (document moreDetail inMoreDetail) ∧
    ofDocument (document moreDetail inMoreDetail) = .ok moreDetail := by
  obtain ⟨texts, _, documents⟩ := ofDocument_lays
  have read : (Toml.read? moreDetailText).isSome := by decide +kernel
  obtain ⟨v, parsed⟩ := Option.isSome_iff_exists.mp read
  have loaded : ofText moreDetailText = .ok moreDetail := by decide +kernel
  have valid : moreDetail.Valid := by
    refine ⟨by decide, fun name named => ?_, 'd', by decide, by decide⟩
    cases named
  have complete : ∀ f : Field, f.of moreDetail ≠ f.of {} → inMoreDetail f = true := by
    intro f differs
    cases f with
    | useMax | maxPathCount | filter => rfl
    | corner | includeUnconstrained | includeCapturePaths | clockExpanded | direction =>
      exact absurd rfl differs
  obtain ⟨lists, held, loads⟩ := documents moreDetail inMoreDetail valid (by decide) complete
  have writable : Toml.Holds (document moreDetail inMoreDetail) :=
    held.mpr ⟨by decide, by simp [inMoreDetail]⟩
  exact ⟨v, parsed, (texts _ v parsed).symm.trans loaded, writable, loads _ lists⟩

end Config

end TimingExplorer
